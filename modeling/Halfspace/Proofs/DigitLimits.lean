/-
What the limit on digits lets through.

The limit refuses runs of digits and numbers that are too long and changes nothing else.
- `checkRuns_eq_ok_iff`, `checkRuns_error`: reading, and the run that is told when it is refused;
- `writes_some_iff`: which numbers can be written, by their size;
- `explain_cases`: faults that hold a number;
- `Numeral.value_of_lets`: what is read under a limit is read alike under a more generous one.
-/
import Halfspace.Numeral
import Halfspace.Proofs.Fallible

namespace Halfspace

namespace DigitLimit

variable {limit : DigitLimit} {runs : List (List Nat)} {q : Rat} {fault : Fault}

/-! ## Reading -/

/-- runs of digits that are all within a limit -/
def Reads (limit : DigitLimit) (runs : List (List Nat)) : Prop := ∀ run ∈ runs, limit.admits run.length = true

instance (limit : DigitLimit) (runs : List (List Nat)) : Decidable (limit.Reads runs) :=
  inferInstanceAs (Decidable (∀ _ ∈ _, _))

theorem reads_none (runs : List (List Nat)) : Reads none runs := fun _ _ => rfl

theorem checkRun_cases (limit : DigitLimit) (run : List Nat) :
    limit.admits run.length = true ∧ limit.checkRun run = .ok () ∨
      ∃ most, limit = some most ∧ most < run.length ∧ limit.checkRun run = .error (.tooLongToRead most run.length) := by
  cases limit with
  | none => exact .inl ⟨rfl, rfl⟩
  | some most =>
    by_cases hshort : run.length ≤ most
    · exact .inl ⟨decide_eq_true hshort, if_pos hshort⟩
    · exact .inr ⟨most, rfl, not_le.1 hshort, if_neg hshort⟩

theorem checkRuns_cons (limit : DigitLimit) (run : List Nat) (runs : List (List Nat)) :
    limit.checkRuns (run :: runs) = limit.checkRun run >>= fun _ => limit.checkRuns runs := rfl

theorem checkRun_eq_ok_iff {run : List Nat} : limit.checkRun run = .ok () ↔ limit.admits run.length = true := by
  rcases checkRun_cases limit run with ⟨hshort, hcheck⟩ | ⟨most, rfl, hlong, hcheck⟩
  · simp [hcheck, hshort]
  · simp [hcheck, admits, hlong]

theorem checkRuns_eq_ok_iff : limit.checkRuns runs = .ok () ↔ limit.Reads runs := by
  simp only [checkRuns, forM_eq_ok_iff, checkRun_eq_ok_iff, Reads]

/-- the first of the runs that are too long is told -/
theorem checkRuns_error (h : limit.checkRuns runs = .error fault) : ∃ most before run after, limit = some most ∧
    runs = before ++ run :: after ∧ limit.Reads before ∧ most < run.length ∧
    fault = .tooLongToRead most run.length := by
  induction runs with
  | nil => cases h
  | cons run rest ih =>
    rw [checkRuns_cons] at h
    rcases checkRun_cases limit run with ⟨hshort, hcheck⟩ | ⟨most, hlimit, hlong, hcheck⟩
    · rw [hcheck] at h
      obtain ⟨most, before, long, after, hlimit, rfl, hbefore, hlong⟩ := ih h
      exact ⟨most, run :: before, long, after, hlimit, rfl, List.forall_mem_cons.2 ⟨hshort, hbefore⟩, hlong⟩
    · rw [hcheck] at h
      cases h
      exact ⟨most, [], run, rest, hlimit, rfl, List.forall_mem_nil _, hlong, rfl⟩

/-! ## More generous limits -/

def Lets (limit limit' : DigitLimit) : Prop := ∀ n, limit.admits n = true → limit'.admits n = true

theorem Lets.refl (limit : DigitLimit) : limit.Lets limit := fun _ h => h

theorem lets_none (limit : DigitLimit) : limit.Lets none := fun _ _ => rfl

theorem Reads.of_lets {limit' : DigitLimit} (h : limit.Reads runs) (hlets : limit.Lets limit') : limit'.Reads runs :=
  fun run hrun => hlets _ (h run hrun)

/-! ## Writing -/

theorem writes_none (q : Rat) : writes none q = true := rfl

theorem admits_toString_iff {most : Nat} (hmost : 0 < most) (n : Nat) :
    admits (some most) (toString n).length = true ↔ n < 10 ^ most := by
  have hdigits : (toString n).length = (Nat.toDigits 10 n).length := by
    rw [← String.length_toList, show (toString n).toList = _ from Nat.toList_repr]
  rw [hdigits, ← Nat.length_toDigits_le_iff (by norm_num) hmost]
  simp [admits]

/-- a number can be written if numerator and denominator are small enough -/
theorem writes_some_iff {most : Nat} (hmost : 0 < most) :
    writes (some most) q = true ↔ q.num.natAbs < 10 ^ most ∧ q.den < 10 ^ most := by
  rw [writes, Bool.and_eq_true, admits_toString_iff hmost, admits_toString_iff hmost]

theorem not_writes_pow {most : Nat} (hmost : 0 < most) : ¬writes (some most) (10 ^ most) = true := by
  rw [writes_some_iff hmost]
  rintro ⟨hlt, -⟩
  rw [Rat.num_pow, Int.natAbs_pow] at hlt
  exact lt_irrefl _ hlt

theorem checkNumber_cases (limit : DigitLimit) (q : Rat) :
    limit.writes q = true ∧ limit.checkNumber q = .ok () ∨
      ∃ most, limit = some most ∧ limit.writes q = false ∧ limit.checkNumber q = .error (.tooLongToWrite most) := by
  cases limit with
  | none => exact .inl ⟨rfl, rfl⟩
  | some most =>
    cases hwrites : writes (some most) q with
    | true => exact .inl ⟨rfl, if_pos hwrites⟩
    | false => exact .inr ⟨most, rfl, rfl, if_neg (by simp [hwrites])⟩

theorem explain_cases (limit : DigitLimit) (q : Rat) (fault : Fault) :
    limit.writes q = true ∧ limit.explain [q] fault = fault ∨
      ∃ most, limit = some most ∧ limit.writes q = false ∧ limit.explain [q] fault = .tooLongToWrite most := by
  rcases checkNumber_cases limit q with ⟨hwrites, hcheck⟩ | ⟨most, hlimit, hwrites, hcheck⟩
  · exact .inl ⟨hwrites, by simp [explain, hcheck, List.forM_cons, bind, Except.bind, pure, Except.pure]⟩
  · exact .inr ⟨most, hlimit, hwrites, by simp [explain, hcheck, List.forM_cons, bind, Except.bind]⟩

end DigitLimit

/-! ## Numerals -/

namespace Numeral

theorem Magnitude.value_eq_ok_iff {m : Magnitude} {limit : DigitLimit} {q : Rat} :
    m.value limit = .ok q ↔ limit.Reads m.runs ∧ m.number = .ok q := by
  rw [value, bind_eq_ok_iff, ← DigitLimit.checkRuns_eq_ok_iff]
  exact ⟨fun ⟨_, hshort, h⟩ => ⟨hshort, h⟩, fun ⟨hshort, h⟩ => ⟨(), hshort, h⟩⟩

/-- what is read under a limit is read alike under a more generous one -/
theorem value_of_lets {limit limit' : DigitLimit} (hlets : limit.Lets limit') {numeral : Numeral} {q : Rat}
    (h : numeral.value limit = .ok q) : numeral.value limit' = .ok q := by
  cases numeral with
  | number p => exact h
  | text s =>
    simp only [value, read] at h ⊢
    split at h
    · cases h
    · obtain ⟨p, hp, h⟩ := bind_eq_ok_iff.1 h
      obtain ⟨hshort, hnumber⟩ := Magnitude.value_eq_ok_iff.1 hp
      exact bind_eq_ok_iff.2 ⟨p, Magnitude.value_eq_ok_iff.2 ⟨hshort.of_lets hlets, hnumber⟩, h⟩

end Numeral

end Halfspace
