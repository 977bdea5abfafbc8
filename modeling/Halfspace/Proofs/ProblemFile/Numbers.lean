/-
The text of a number is read as the number.

The text is a minus where the number is negative, and then the digits of a coefficient as they stand in left sides
(`toList_fraction`). So what is read as digits there is read as a number here (`scan_of_spells`), and every number that
can be written survives it (`read_fraction`). A text is refused that writes no number, has letters for decimals, a run of
digits over the limit or a denominator zero (`read_error`), the last only if it is digits over digits
(`read_eq_divisionByZero_iff`).
-/
import Halfspace.Numeral
import Halfspace.Proofs.ProblemFile.LeftSides

namespace Halfspace

open Text

theorem Text.toList_int (n : Int) :
    (toString n).toList = (if n < 0 then ['-'] else []) ++ (toString n.natAbs).toList := by
  cases n with
  | ofNat m => rfl
  | negSucc m =>
    rw [if_pos (Int.negSucc_lt_zero m)]
    exact String.toList_append

namespace Numeral

open LeftSide (sizeText SpellsCoefficient denominatorOf magnitudeOf)

/-- the text of a number: a minus where it is negative, and its digits -/
theorem toList_fraction (q : Rat) :
    (fraction q).toList = (if q < 0 then ['-'] else []) ++ sizeText false q := by
  have hsign : (if q.num < 0 then ['-'] else []) = (if q < 0 then ['-'] else []) := by simp only [Rat.num_neg]
  by_cases hden : q.den = 1
  · have hdigits : sizeText false q = (toString q.num.natAbs).toList := if_pos ⟨hden, rfl⟩
    rw [fraction, if_pos hden, toList_int, hsign, hdigits]
  · have hdigits : sizeText false q = (toString q.num.natAbs).toList ++ '/' :: (toString q.den).toList :=
      if_neg fun h => hden h.1
    rw [fraction, if_neg hden, String.toList_append, String.toList_append, toList_int, hsign, hdigits,
      List.append_assoc, List.append_assoc]
    rfl

/-- what spells a coefficient is taken for a number with its runs of digits and of its size -/
theorem scan_of_spells {c : LeftSide.Coefficient} {text : List Char} (h : SpellsCoefficient (some c) text)
    (hzero : denominatorOf (some c) ≠ 0) : ∃ m, scan text = some m ∧ m.number = .ok (magnitudeOf (some c)) ∧
      ∀ limit : DigitLimit, limit.Reads c.runs → limit.Reads m.runs := by
  have hend : ∀ {a : List Char} {digits : List Nat}, Spells a digits → groupedDigits a = (digits, []) := by
    intro a digits ha
    simpa only [List.append_nil] using groupedDigits_append ha (next_nil _) (next_nil _)
  cases h with
  | @whole top a htop hne =>
    cases top with
    | nil => exact absurd rfl hne
    | cons d top =>
      refine ⟨.decimal (d :: top) [] {}, by simp [scan, hend htop, scanPower, exponent], ?_, fun limit hshort => ?_⟩
      · simp [Magnitude.number, decimalValue, Power.value, numberOf, magnitudeOf, denominatorOf, Rat.mkRat_eq_div]
      · have hempty : limit.admits 0 = true := by cases limit <;> simp [DigitLimit.admits]
        exact List.forall_mem_cons.2 ⟨hshort _ List.mem_cons_self, by simp [hempty]⟩
  | @quotient top bottom a b htop hbottom hne hne' =>
    have hread : groupedDigits (a ++ '/' :: b) = (top, '/' :: b) :=
      groupedDigits_append htop (next_cons.2 (by decide)) (next_cons.2 (by decide))
    have hnumber : numberOf bottom ≠ 0 := hzero
    cases top with
    | nil => exact absurd rfl hne
    | cons d top =>
      cases bottom with
      | nil => exact absurd rfl hne'
      | cons d' bottom =>
        refine ⟨.quotient (d :: top) (d' :: bottom), by simp [scan, hread, hend hbottom], ?_, fun _ hshort => hshort⟩
        simp [Magnitude.number, hnumber, magnitudeOf, denominatorOf, Rat.mkRat_eq_div]

theorem sign_of_next {cs : List Char} (h : Next (fun c => c ≠ '-' ∧ c ≠ '+') cs) : sign cs = (false, cs) := by
  rw [sign.eq_def]
  split
  · exact absurd rfl (next_cons.1 h).1
  · exact absurd rfl (next_cons.1 h).2
  · rfl

theorem fraction_ne_nil (q : Rat) : (fraction q).toList ≠ [] := by
  obtain ⟨coef, hspells, -⟩ := LeftSide.exists_spells_sizeText false q
  rcases hspells.cases with ⟨hnone, -⟩ | ⟨c, cs, hcs, -⟩
  · cases hnone
  · simp [toList_fraction, hcs]

theorem mem_fraction {q : Rat} {c : Char} (hc : c ∈ (fraction q).toList) :
    isDigit c = true ∨ c = '/' ∨ c = '-' := by
  obtain ⟨coef, hspells, -⟩ := LeftSide.exists_spells_sizeText false q
  rw [toList_fraction] at hc
  rcases List.mem_append.1 hc with hc | hc
  · split at hc
    · exact .inr (.inr (List.mem_singleton.1 hc))
    · cases hc
  · exact (hspells.forall_mem c hc).imp_right .inl

theorem isBlank_of_mem_fraction {q : Rat} {c : Char} (hc : c ∈ (fraction q).toList) : isBlank c = false := by
  rcases mem_fraction hc with h | rfl | rfl
  · exact isBlank_of_isDigit h
  · decide
  · decide

/-- the text of a number is read as the number, if it can be written -/
theorem read_fraction {limit : DigitLimit} {q : Rat} (hwrites : limit.writes q = true) :
    read (fraction q) limit = .ok q := by
  obtain ⟨c, hspells, hzero, hsize, hshort⟩ := LeftSide.exists_spells_sizeText false q
  have htrim : trim (fraction q).toList = (fraction q).toList := trim_of_forall fun c hc => isBlank_of_mem_fraction hc
  obtain ⟨m, hscan, hnumber, hruns⟩ := scan_of_spells hspells hzero
  have hvalue : m.value limit = .ok |q| :=
    Magnitude.value_eq_ok_iff.2 ⟨hruns limit (hshort limit hwrites), hsize ▸ hnumber⟩
  have hnext : Next (fun c => c ≠ '-' ∧ c ≠ '+') (sizeText false q) := by
    intro c hc
    rcases hspells.forall_mem c (List.mem_of_mem_head? hc) with h | rfl
    · constructor <;> rintro rfl <;> exact absurd h (by decide)
    · decide
  rw [read, htrim, toList_fraction]
  by_cases hq : q < 0
  · simp only [if_pos hq, List.singleton_append, sign, hscan, hvalue]
    rw [abs_of_neg hq]
    exact congrArg Except.ok (neg_neg q)
  · have hsign : sign (sizeText false q) = (false, sizeText false q) := sign_of_next hnext
    simp only [if_neg hq, List.nil_append, hsign, hscan, hvalue]
    rw [abs_of_nonneg (not_lt.1 hq)]
    rfl

/-! ## What is refused -/

/-- digits over digits that write zero, all within a limit -/
def OverZero (limit : DigitLimit) (cs : List Char) : Prop :=
  ∃ top bottom rest, groupedDigits cs = (top, '/' :: rest) ∧ top ≠ [] ∧ groupedDigits rest = (bottom, []) ∧
    bottom ≠ [] ∧ numberOf bottom = 0 ∧ limit.Reads [top, bottom]

theorem scanPower_eq_some {f : Power → Magnitude} {cs : List Char} {m : Magnitude} (h : scanPower f cs = some m) :
    ∃ power, m = f power := by
  unfold scanPower at h
  split at h
  · exact ⟨_, (Option.some.inj h).symm⟩
  · cases h

/-- only digits over digits are taken for a quotient -/
theorem scan_eq_quotient_iff {cs : List Char} {top bottom : List Nat} : scan cs = some (.quotient top bottom) ↔
    ∃ rest, groupedDigits cs = (top, '/' :: rest) ∧ top ≠ [] ∧ groupedDigits rest = (bottom, []) ∧ bottom ≠ [] := by
  constructor
  · intro h
    unfold scan at h
    split at h
    · split at h
      · cases h
      · obtain ⟨power, hm⟩ := scanPower_eq_some h
        cases hm
    · cases h
    · next whole rest hne hwhole =>
      split at h
      · cases h
      · next digits after hne' hdigits =>
        split_ifs at h with hafter
        cases h
        rw [List.isEmpty_iff.1 hafter] at hdigits
        exact ⟨rest, hwhole, hne, hdigits, hne'⟩
    · unfold scanDecimals at h
      split at h <;> (obtain ⟨power, hm⟩ := scanPower_eq_some h; cases hm)
    · obtain ⟨power, hm⟩ := scanPower_eq_some h
      cases hm
  · rintro ⟨rest, htop, hne, hbottom, hne'⟩
    cases top with
    | nil => exact absurd rfl hne
    | cons d top =>
      cases bottom with
      | nil => exact absurd rfl hne'
      | cons e bottom => simp [scan, htop, hbottom]

theorem Magnitude.number_error {m : Magnitude} {fault : Fault} (h : m.number = .error fault) :
    (∃ letters, fault = .badDecimals letters) ∨
      fault = .divisionByZero ∧ ∃ top bottom, m = .quotient top bottom ∧ numberOf bottom = 0 := by
  cases m with
  | quotient top bottom =>
    rw [number] at h
    split_ifs at h with hzero
    exact .inr ⟨(Except.error.inj h).symm, top, bottom, rfl, hzero⟩
  | decimal => cases h
  | lettered whole letters => exact .inl ⟨letters, (Except.error.inj h).symm⟩

/-- what a text that writes no number is refused for -/
theorem read_error {limit : DigitLimit} {text : String} {fault : Fault} (h : read text limit = .error fault) :
    fault = .badNumber text ∨ (∃ letters, fault = .badDecimals letters) ∨
      (∃ most digits, limit = some most ∧ most < digits ∧ fault = .tooLongToRead most digits) ∨
      fault = .divisionByZero ∧ OverZero limit (sign (trim text.toList)).2 := by
  unfold read at h
  dsimp only at h
  split at h
  · cases h
    exact .inl rfl
  · next m hscan =>
    refine .inr ?_
    cases hvalue : m.value limit with
    | ok q =>
      rw [hvalue] at h
      cases h
    | error fault' =>
      rw [hvalue] at h
      cases h
      cases hcheck : limit.checkRuns m.runs with
      | error fault' =>
        rw [Magnitude.value, hcheck] at hvalue
        cases hvalue
        obtain ⟨most, before, run, after, hlimit, -, -, hlong, rfl⟩ := DigitLimit.checkRuns_error hcheck
        exact .inr (.inl ⟨most, run.length, hlimit, hlong, rfl⟩)
      | ok _ =>
        rw [Magnitude.value, hcheck] at hvalue
        rcases Magnitude.number_error hvalue with hletters | ⟨rfl, top, bottom, rfl, hzero⟩
        · exact .inl hletters
        · obtain ⟨rest, htop, hne, hbottom, hne'⟩ := scan_eq_quotient_iff.1 hscan
          exact .inr (.inr ⟨rfl, top, bottom, rest, htop, hne, hbottom, hne', hzero,
            DigitLimit.checkRuns_eq_ok_iff.1 hcheck⟩)

theorem read_eq_divisionByZero_iff {limit : DigitLimit} {text : String} :
    read text limit = .error .divisionByZero ↔ OverZero limit (sign (trim text.toList)).2 := by
  constructor
  · intro h
    rcases read_error h with h | ⟨_, h⟩ | ⟨_, _, -, -, h⟩ | ⟨-, h⟩
    · cases h
    · cases h
    · cases h
    · exact h
  · rintro ⟨top, bottom, rest, htop, hne, hbottom, hne', hzero, hshort⟩
    have hscan := scan_eq_quotient_iff.2 ⟨rest, htop, hne, hbottom, hne'⟩
    have hcheck : limit.checkRuns [top, bottom] = .ok () := DigitLimit.checkRuns_eq_ok_iff.2 hshort
    have hvalue : (Magnitude.quotient top bottom).value limit = .error .divisionByZero := by
      rw [Magnitude.value, Magnitude.runs, hcheck]
      exact if_pos hzero
    simp only [read, hscan, hvalue]
    rfl

end Numeral

end Halfspace
