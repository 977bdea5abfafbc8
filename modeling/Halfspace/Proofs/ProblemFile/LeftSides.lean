/-
Reading a left side accepts exactly its grammar.

`SpellsTerms` says that a text writes terms one after another; it writes one list of them only (`SpellsTerms.unique`).
- `Rounds`: reading terms until the text ends, with no bound on the number of rounds; `rounds_readTerms`: they end;
- `SpellsTerms.rounds`, `Rounds.spells`: the rounds return what the text spells, and return only then;
- `render`: a text for coefficients and names in any layout; `read_render`: it is read back;
- `read_limited`: what a limit on digits changes;
- `read_exact`: all of this about left sides.
-/
import Halfspace.Proofs.DigitLimits
import Halfspace.Proofs.ProblemFile.Terms

namespace Halfspace

open Text

namespace LeftSide

/-- a text writes terms one after another; `first` says that no term came before, and every other has a sign -/
inductive SpellsTerms : Bool → List WrittenTerm → List Char → Prop where
  | nil (first : Bool) : SpellsTerms first [] []
  | cons {first : Bool} {w : WrittenTerm} {ws : List WrittenTerm} {text rest : List Char}
      (hsign : first = false → w.sign ≠ none) (hterm : SpellsTerm w text) (hrest : SpellsTerms false ws rest) :
      SpellsTerms first (w :: ws) (text ++ rest)

/-! ## Rounds without a bound -/

variable {ids : String → Option Int} {limit : DigitLimit}

/-- reading terms until the text ends or something is wrong: one round for each term, and no bound on the rounds -/
inductive Rounds (ids : String → Option Int) (limit : DigitLimit) :
    Bool → List Char → Except Fault LinearForm → Prop where
  | finished (first : Bool) : Rounds ids limit first [] (.ok [])
  | unreadable {first : Bool} {cs : List Char} (hcs : cs ≠ []) (hread : readTerm cs = none) :
      Rounds ids limit first cs (.error (.unreadableTerm (String.ofList cs)))
  | refused {first : Bool} {cs rest : List Char} {w : WrittenTerm} {fault : Fault}
      (hread : readTerm cs = some (w, rest)) (hterm : w.toTerm ids limit first = .error fault) :
      Rounds ids limit first cs (.error fault)
  | next {first : Bool} {cs rest : List Char} {w : WrittenTerm} {t : Term} {r : Except Fault LinearForm}
      (hread : readTerm cs = some (w, rest)) (hterm : w.toTerm ids limit first = .ok t)
      (hrest : Rounds ids limit false rest r) : Rounds ids limit first cs (r.map (t :: ·))

theorem readTerms_succ {fuel : Nat} {first : Bool} {cs rest : List Char} {w : WrittenTerm}
    (hread : readTerm cs = some (w, rest)) : readTerms ids limit (fuel + 1) first cs =
      (w.toTerm ids limit first).bind fun t => (readTerms ids limit fuel false rest).map (t :: ·) := by
  cases cs with
  | nil => cases hread
  | cons c cs =>
    simp only [readTerms, hread]
    cases w.toTerm ids limit first with
    | error fault => rfl
    | ok t => cases readTerms ids limit fuel false rest <;> rfl

/-- counted rounds are rounds, if there are as many as the text has characters -/
theorem rounds_readTerms {fuel : Nat} {first : Bool} {cs : List Char} (h : cs.length ≤ fuel) :
    Rounds ids limit first cs (readTerms ids limit fuel first cs) := by
  induction fuel generalizing first cs with
  | zero =>
    rw [List.length_eq_zero_iff.1 (Nat.le_zero.1 h), readTerms]
    exact .finished first
  | succ fuel ih =>
    cases hread : readTerm cs with
    | none =>
      cases cs with
      | nil => exact .finished first
      | cons c cs =>
        simp only [readTerms, hread]
        exact .unreadable (by simp) hread
    | some read =>
      obtain ⟨w, rest⟩ := read
      have hlt := length_lt_of_readTerm hread
      rw [readTerms_succ hread]
      cases hterm : w.toTerm ids limit first with
      | error fault => exact .refused hread hterm
      | ok t => exact .next hread hterm (ih (by omega))

/-- rounds are counted rounds, of which the text allows as many as it has characters -/
theorem Rounds.readTerms_eq {fuel : Nat} {first : Bool} {cs : List Char} {r : Except Fault LinearForm}
    (h : Rounds ids limit first cs r) (hfuel : cs.length ≤ fuel) : readTerms ids limit fuel first cs = r := by
  induction h generalizing fuel with
  | finished first => rw [readTerms]
  | @unreadable first cs hcs hread =>
    have hpos := List.length_pos_iff.2 hcs
    obtain ⟨fuel, rfl⟩ := Nat.exists_eq_succ_of_ne_zero (by omega : fuel ≠ 0)
    cases cs with
    | nil => exact absurd rfl hcs
    | cons c cs => simp only [readTerms, hread]
  | refused hread hterm =>
    have hlt := length_lt_of_readTerm hread
    obtain ⟨fuel, rfl⟩ := Nat.exists_eq_succ_of_ne_zero (by omega : fuel ≠ 0)
    rw [readTerms_succ hread, hterm]
    rfl
  | next hread hterm _ ih =>
    have hlt := length_lt_of_readTerm hread
    obtain ⟨fuel, rfl⟩ := Nat.exists_eq_succ_of_ne_zero (by omega : fuel ≠ 0)
    rw [readTerms_succ hread, hterm, Except.bind, ih (by omega)]

/-! ## Meaning -/

def denominatorOf : Option Coefficient → Nat
  | some ⟨_, some bottom⟩ => numberOf bottom
  | _ => 1

def magnitudeOf : Option Coefficient → Rat
  | none => 1
  | some c => (numberOf c.top : Rat) / denominatorOf (some c)

def runsOf : Option Coefficient → List (List Nat)
  | none => []
  | some c => c.runs

/-- the signed coefficient of a term -/
def WrittenTerm.number (w : WrittenTerm) : Rat :=
  if w.sign = some true then -magnitudeOf w.coef else magnitudeOf w.coef

theorem WrittenTerm.value_eq (w : WrittenTerm) (limit : DigitLimit) : w.value limit = do
    limit.checkRuns (runsOf w.coef)
    if denominatorOf w.coef = 0 then .error .divisionByZero else return w.number := by
  obtain ⟨sign, coef, name⟩ := w
  rcases coef with _ | ⟨top, bottom⟩
  · rfl
  simp only [value, Coefficient.value, runsOf, number, bind_assoc]
  refine bind_congr fun _ => ?_
  cases bottom with
  | none => simp [magnitudeOf, denominatorOf, Rat.mkRat_eq_div]
  | some bottom =>
    by_cases hbottom : numberOf bottom = 0
    · simp [denominatorOf, hbottom, bind, Except.bind]
    · simp [magnitudeOf, denominatorOf, hbottom, Rat.mkRat_eq_div]

theorem WrittenTerm.value_eq_ok_iff {w : WrittenTerm} {q : Rat} :
    w.value limit = .ok q ↔ denominatorOf w.coef ≠ 0 ∧ limit.Reads (runsOf w.coef) ∧ q = w.number := by
  rw [value_eq, bind_eq_ok_iff, ← DigitLimit.checkRuns_eq_ok_iff]
  constructor
  · rintro ⟨⟨⟩, hshort, h⟩
    split_ifs at h with hzero
    cases h
    exact ⟨hzero, hshort, rfl⟩
  · rintro ⟨hne, hshort, rfl⟩
    exact ⟨(), hshort, if_neg hne⟩

/-- a written term means a term: its denominator is not zero, its digits are within the limit, and it has the term's
coefficient and variable -/
structure Means (ids : String → Option Int) (limit : DigitLimit) (w : WrittenTerm) (t : Term) : Prop where
  denominator_ne : denominatorOf w.coef ≠ 0
  short : limit.Reads (runsOf w.coef)
  coef_eq : t.coef = w.number
  known : ids w.name = some t.var

theorem means_ne_nil {ws : List WrittenTerm} {terms : LinearForm} (h : List.Forall₂ (Means ids limit) ws terms)
    (hne : ws ≠ []) : terms ≠ [] := by
  rintro rfl
  cases h
  exact hne rfl

theorem toTerm_eq_ok_iff {first : Bool} {w : WrittenTerm} {t : Term} :
    w.toTerm ids limit first = .ok t ↔ (first = false → w.sign ≠ none) ∧ Means ids limit w t := by
  rw [WrittenTerm.toTerm]
  split
  · next hsign =>
    simp only [Bool.and_eq_true, Bool.not_eq_true', Option.isNone_iff_eq_none] at hsign
    exact ⟨fun h => (by cases h), fun h => absurd hsign.2 (h.1 hsign.1)⟩
  · next hsign =>
    have hfirst : first = false → w.sign ≠ none := by
      rintro rfl hnone
      exact hsign (by simp [hnone])
    cases hid : ids w.name with
    | none =>
      refine ⟨fun h => (by cases h), fun h => ?_⟩
      rw [h.2.known] at hid
      cases hid
    | some x =>
      simp only [bind_eq_ok_iff, WrittenTerm.value_eq_ok_iff]
      constructor
      · rintro ⟨q, ⟨hne, hshort, rfl⟩, h⟩
        cases h
        exact ⟨hfirst, hne, hshort, rfl, hid⟩
      · rintro ⟨-, hne, hshort, hcoef, hknown⟩
        cases hid.symm.trans hknown
        exact ⟨t.coef, ⟨hne, hshort, hcoef⟩, rfl⟩

/-! ## Limits -/

theorem toTerm_limited {first : Bool} {w : WrittenTerm} {t : Term} (h : w.toTerm ids none first = .ok t) :
    w.toTerm ids limit first = .ok t ∨ ∃ most digits, limit = some most ∧ most < digits ∧
      w.toTerm ids limit first = .error (.tooLongToRead most digits) := by
  obtain ⟨hsign, hmeans⟩ := toTerm_eq_ok_iff.1 h
  cases hcheck : limit.checkRuns (runsOf w.coef) with
  | ok =>
    exact .inl (toTerm_eq_ok_iff.2 ⟨hsign, { hmeans with short := DigitLimit.checkRuns_eq_ok_iff.1 hcheck }⟩)
  | error fault =>
    obtain ⟨most, -, run, -, hlimit, -, -, hlong, rfl⟩ := DigitLimit.checkRuns_error hcheck
    refine .inr ⟨most, run.length, hlimit, hlong, ?_⟩
    have hplace : (!first && w.sign.isNone) = false := by
      cases first with
      | true => rfl
      | false => simpa using Option.isSome_iff_ne_none.2 (hsign rfl)
    rw [WrittenTerm.toTerm, hplace, if_neg Bool.false_ne_true, hmeans.known]
    simp only [WrittenTerm.value_eq, hcheck]
    rfl

/-- rounds that return without a limit return the same under one, or end at digits that are too many -/
theorem Rounds.limited {first : Bool} {cs : List Char} {terms : LinearForm} (h : Rounds ids none first cs (.ok terms)) :
    Rounds ids limit first cs (.ok terms) ∨ ∃ most digits, limit = some most ∧ most < digits ∧
      Rounds ids limit first cs (.error (.tooLongToRead most digits)) := by
  generalize hr : (Except.ok terms : Except Fault LinearForm) = r at h
  induction h generalizing terms with
  | finished first =>
    cases hr
    exact .inl (.finished first)
  | unreadable => cases hr
  | refused => cases hr
  | @next first cs rest w t r hread hterm _ ih =>
    cases r with
    | error fault => cases hr
    | ok more =>
      cases hr
      rcases toTerm_limited hterm with hok | ⟨most, digits, hlimit, hlong, herror⟩
      · rcases ih rfl with hrest | ⟨most, digits, hlimit, hlong, hrest⟩
        · exact .inl (.next hread hok hrest)
        · exact .inr ⟨most, digits, hlimit, hlong, .next hread hok hrest⟩
      · exact .inr ⟨most, digits, hlimit, hlong, .refused hread herror⟩

/-! ## Texts that spell terms -/

/-- what reading returns is what a text says, and the text spells it -/
theorem Rounds.spells {first : Bool} {cs : List Char} {terms : LinearForm} (h : Rounds ids limit first cs (.ok terms)) :
    ∃ ws, SpellsTerms first ws cs ∧ List.Forall₂ (Means ids limit) ws terms := by
  generalize hr : (Except.ok terms : Except Fault LinearForm) = r at h
  induction h generalizing terms with
  | finished first =>
    cases hr
    exact ⟨[], .nil first, .nil⟩
  | unreadable => cases hr
  | refused => cases hr
  | @next first cs rest w t r hread hterm _ ih =>
    cases r with
    | error fault => cases hr
    | ok more =>
      cases hr
      obtain ⟨ws, hws, hmeans⟩ := ih rfl
      obtain ⟨hsign, hmeansTerm⟩ := toTerm_eq_ok_iff.1 hterm
      obtain ⟨text, htext, rfl⟩ := readTerm_split hread
      exact ⟨w :: ws, .cons hsign htext hws, .cons hmeansTerm hmeans⟩

theorem SpellsTerms.next {ws : List WrittenTerm} {cs : List Char} (h : SpellsTerms false ws cs) :
    Next (isNameChar · = false) cs := by
  cases h with
  | nil => exact next_nil _
  | cons hsign hterm _ =>
    obtain ⟨ha, -, -, -, -, -, -, -⟩ := hterm
    simp only [List.append_assoc]
    refine Next.append (fun c hc => isNameChar_of_isBlank (ha c hc)) ?_
    obtain ⟨minus, hminus⟩ := Option.ne_none_iff_exists'.1 (hsign rfl)
    rw [hminus]
    cases minus <;> exact next_cons.2 (by decide)

/-- what a text spells is read from it, and from every text that differs in the white space at its front -/
theorem SpellsTerms.rounds {first : Bool} {ws : List WrittenTerm} {cs cs' : List Char} {terms : LinearForm}
    (h : SpellsTerms first ws cs) (hmeans : List.Forall₂ (Means ids limit) ws terms) (hsame : skipBlanks cs' = skipBlanks cs)
    (hend : ws = [] → cs' = []) : Rounds ids limit first cs' (.ok terms) := by
  induction h generalizing cs' terms with
  | nil first =>
    cases hmeans
    rw [hend rfl]
    exact .finished first
  | @cons first w ws text rest hsign hterm hrest ih =>
    cases hmeans with
    | @cons _ t _ terms ht hmeans =>
      have hread : readTerm cs' = some (w, skipBlanks rest) := by
        rw [← readTerm_skipBlanks, hsame, readTerm_skipBlanks, readTerm_append hterm hrest.next]
      -- a round takes the white space after its term, so the next one begins later than the grammar says
      have hfinish : ws = [] → skipBlanks rest = [] := by
        rintro rfl
        cases hrest
        rfl
      exact .next hread (toTerm_eq_ok_iff.2 ⟨hsign, ht⟩) (ih hmeans (skipBlanks_skipBlanks rest) hfinish)

theorem SpellsTerms.unique {first : Bool} {ws ws' : List WrittenTerm} {cs cs' : List Char}
    (h : SpellsTerms first ws cs) (h' : SpellsTerms first ws' cs') (hsame : skipBlanks cs = skipBlanks cs') :
    ws = ws' := by
  induction h generalizing ws' cs' with
  | nil first =>
    cases h' with
    | nil => rfl
    | cons _ hterm _ => exact absurd (skipBlanks_eq_nil_iff.1 hsame.symm) (hterm.not_blanks _)
  | @cons first w ws text rest _ hterm hrest ih =>
    cases h' with
    | nil => exact absurd (skipBlanks_eq_nil_iff.1 hsame) (hterm.not_blanks _)
    | @cons _ w' ws' text' rest' _ hterm' hrest' =>
      have hread : some (w, skipBlanks rest) = some (w', skipBlanks rest') := by
        rw [← readTerm_append hterm hrest.next, ← readTerm_append hterm' hrest'.next, ← readTerm_skipBlanks, hsame,
          readTerm_skipBlanks]
      obtain ⟨rfl, hskip⟩ := Prod.mk.inj (Option.some.inj hread)
      rw [ih hrest' hskip]

theorem SpellsTerms.rdropWhile {first : Bool} {ws : List WrittenTerm} {cs : List Char}
    (h : SpellsTerms first ws cs) : SpellsTerms first ws (cs.rdropWhile isBlank) := by
  induction h with
  | nil first => exact .nil first
  | @cons first w ws text rest hsign hterm hrest ih =>
    cases hrest with
    | nil =>
      rw [List.append_nil, ← List.append_nil (List.rdropWhile _ _)]
      exact .cons hsign hterm.rdropWhile (.nil false)
    | cons _ hterm' _ =>
      rw [rdropWhile_append (hterm'.not_blanks _)]
      exact .cons hsign hterm ih

/-! ## Left sides -/

theorem rounds_read {cs : List Char} (h : trim cs ≠ []) : Rounds ids limit true (trim cs) (read ids cs limit) := by
  rw [read]
  split
  · next hcs => exact absurd hcs h
  · exact rounds_readTerms le_rfl

theorem read_eq_of_rounds {cs : List Char} {r : Except Fault LinearForm} (hcs : trim cs ≠ [])
    (h : Rounds ids limit true (trim cs) r) : read ids cs limit = r :=
  ((rounds_read hcs).readTerms_eq le_rfl).symm.trans (h.readTerms_eq le_rfl)

theorem read_of_rounds {cs : List Char} {terms : LinearForm} (hne : terms ≠ [])
    (h : Rounds ids limit true (trim cs) (.ok terms)) : read ids cs limit = .ok terms := by
  have hcs : trim cs ≠ [] := by
    intro hnil
    rw [hnil] at h
    cases h.readTerms_eq (le_refl 0)
    exact hne rfl
  exact read_eq_of_rounds hcs h

theorem trim_ne_nil_of_read {cs : List Char} {terms : LinearForm} (h : read ids cs limit = .ok terms) : trim cs ≠ [] := by
  intro hnil
  rw [read, hnil] at h
  cases h

theorem read_limited {cs : List Char} {terms : LinearForm} (h : read ids cs none = .ok terms) :
    read ids cs limit = .ok terms ∨ ∃ most digits, limit = some most ∧ most < digits ∧
      read ids cs limit = .error (.tooLongToRead most digits) := by
  have hcs := trim_ne_nil_of_read h
  have hrounds : Rounds ids none true (trim cs) (read ids cs none) := rounds_read hcs
  rw [h] at hrounds
  rcases hrounds.limited with hok | ⟨most, digits, hlimit, hlong, herror⟩
  · exact .inl (read_eq_of_rounds hcs hok)
  · exact .inr ⟨most, digits, hlimit, hlong, read_eq_of_rounds hcs herror⟩

theorem read_append_blanks {e : List Char} (he : Blanks e) (cs : List Char) : read ids (cs ++ e) limit = read ids cs limit := by
  rw [read, read, ← List.nil_append (cs ++ e), trim_surround blanks_nil he]

/-- what a text spells is read, whatever white space is around it -/
theorem read_of_spells {ws : List WrittenTerm} {cs : List Char} {terms : LinearForm} (h : SpellsTerms true ws cs)
    (hne : ws ≠ []) (hmeans : List.Forall₂ (Means ids limit) ws terms) : read ids cs limit = .ok terms := by
  apply read_of_rounds (means_ne_nil hmeans hne)
  rw [trim_eq_skipBlanks]
  exact h.rdropWhile.rounds hmeans (skipBlanks_skipBlanks _) fun hnil => absurd hnil hne

/-- a written term has a known name, a denominator other than zero and digits within the limit -/
structure Legal (ids : String → Option Int) (limit : DigitLimit) (w : WrittenTerm) : Prop where
  known : (ids w.name).isSome
  denominator_ne : denominatorOf w.coef ≠ 0
  short : limit.Reads (runsOf w.coef)

theorem exists_means {ws : List WrittenTerm} (h : ∀ w ∈ ws, Legal ids limit w) :
    ∃ terms, List.Forall₂ (Means ids limit) ws terms := by
  induction ws with
  | nil => exact ⟨[], .nil⟩
  | cons w ws ih =>
    obtain ⟨hw, hws⟩ := List.forall_mem_cons.1 h
    obtain ⟨x, hx⟩ := Option.isSome_iff_exists.1 hw.known
    obtain ⟨terms, hterms⟩ := ih hws
    exact ⟨⟨w.number, x⟩ :: terms, .cons ⟨hw.denominator_ne, hw.short, rfl, hx⟩ hterms⟩

theorem legal_of_means {ws : List WrittenTerm} {terms : LinearForm} (h : List.Forall₂ (Means ids limit) ws terms) :
    ∀ w ∈ ws, Legal ids limit w := by
  induction h with
  | nil => simp
  | cons hterm _ ih => exact List.forall_mem_cons.2 ⟨⟨by simp [hterm.known], hterm.denominator_ne, hterm.short⟩, ih⟩

/-- what is returned is what the text spells -/
theorem read_eq_ok_iff {cs : List Char} {terms : LinearForm} : read ids cs limit = .ok terms ↔
    ∃ ws, ws ≠ [] ∧ SpellsTerms true ws (trim cs) ∧ List.Forall₂ (Means ids limit) ws terms := by
  constructor
  · intro h
    have hcs := trim_ne_nil_of_read h
    obtain ⟨ws, hws, hmeans⟩ := (h ▸ rounds_read hcs).spells
    refine ⟨ws, ?_, hws, hmeans⟩
    rintro rfl
    generalize trim cs = text at hws hcs
    cases hws
    exact hcs rfl
  · rintro ⟨ws, hne, hws, hmeans⟩
    exact read_of_rounds (means_ne_nil hmeans hne) (hws.rounds hmeans rfl fun hnil => absurd hnil hne)

/-! ## Rendering -/

/-- the freedom in writing a term: white space, and signs, stars and ones that may be left out -/
structure Layout where
  before : {cs // Blanks cs} := ⟨[], blanks_nil⟩
  afterSign : {cs // Blanks cs} := ⟨[], blanks_nil⟩
  afterCoefficient : {cs // Blanks cs} := ⟨[], blanks_nil⟩
  afterStar : {cs // Blanks cs} := ⟨[], blanks_nil⟩
  after : {cs // Blanks cs} := ⟨[], blanks_nil⟩
  /-- a plus before a first term -/
  plus : Bool := false
  /-- a coefficient one -/
  one : Bool := false
  /-- a denominator one -/
  stroke : Bool := false
  star : Bool := false

/-- the digits of a number without its sign; `stroke` says that a denominator one is written -/
def sizeText (stroke : Bool) (q : Rat) : List Char :=
  if q.den = 1 ∧ stroke = false then (toString q.num.natAbs).toList
  else (toString q.num.natAbs).toList ++ '/' :: (toString q.den).toList

def magnitudeText (layout : Layout) (q : Rat) : List Char :=
  if |q| = 1 ∧ layout.one = false then [] else sizeText layout.stroke q

/-- the sign of a coefficient; `first` says that no term came before -/
def signOf (layout : Layout) (first : Bool) (q : Rat) : Option Bool :=
  if q < 0 then some true else if first && !layout.plus then none else some false

def renderTerm (layout : Layout) (first : Bool) (q : Rat) (name : String) : List Char :=
  layout.before ++ (signText (signOf layout first q) ++ (layout.afterSign ++ (magnitudeText layout q ++
    (layout.afterCoefficient ++ ((if layout.star then ['*'] else []) ++ (layout.afterStar ++
      (name.toList ++ layout.after)))))))

def render (first : Bool) : List (Layout × Rat × String) → List Char
  | [] => []
  | (layout, q, name) :: rest => renderTerm layout first q name ++ render false rest

theorem exists_spells_sizeText (stroke : Bool) (q : Rat) : ∃ c, SpellsCoefficient (some c) (sizeText stroke q) ∧
    denominatorOf (some c) ≠ 0 ∧ magnitudeOf (some c) = |q| ∧
    ∀ limit : DigitLimit, limit.writes q = true → limit.Reads c.runs := by
  obtain ⟨top, htop, hspells, hnumber⟩ := exists_spells q.num.natAbs
  obtain ⟨bottom, hbottom, hspells', hnumber'⟩ := exists_spells q.den
  have habs : |q| = (q.num.natAbs : Rat) / (q.den : Rat) := by
    rw [Rat.abs_def, Rat.divInt_eq_div]
    rfl
  have hshort : ∀ limit : DigitLimit, limit.writes q = true → limit.Reads [top, bottom] := by
    intro limit hwrites
    rw [DigitLimit.writes, ← String.length_toList, ← String.length_toList, hspells.length_eq, hspells'.length_eq,
      Bool.and_eq_true] at hwrites
    exact List.forall_mem_cons.2 ⟨hwrites.1, List.forall_mem_singleton.2 hwrites.2⟩
  rw [sizeText]
  split
  · next hden =>
    refine ⟨⟨top, none⟩, .whole hspells htop, Nat.one_ne_zero, ?_, fun limit hwrites => ?_⟩
    · simp [magnitudeOf, denominatorOf, hnumber, habs, hden.1]
    · exact List.forall_mem_singleton.2 (hshort limit hwrites top List.mem_cons_self)
  · refine ⟨⟨top, some bottom⟩, .quotient hspells hspells' htop hbottom, ?_, ?_, hshort⟩
    · simp [denominatorOf, hnumber']
    · simp [magnitudeOf, denominatorOf, hnumber, hnumber', habs]

theorem exists_spells_magnitudeText (layout : Layout) (q : Rat) :
    ∃ coef, SpellsCoefficient coef (magnitudeText layout q) ∧ denominatorOf coef ≠ 0 ∧ magnitudeOf coef = |q| ∧
      ∀ limit : DigitLimit, limit.writes q = true → limit.Reads (runsOf coef) := by
  rw [magnitudeText]
  split
  · next hone => exact ⟨none, .absent, Nat.one_ne_zero, hone.1.symm, fun _ _ => List.forall_mem_nil _⟩
  · obtain ⟨c, hc⟩ := exists_spells_sizeText layout.stroke q
    exact ⟨some c, hc⟩

/-- a rendered term spells one that means it, if its number can be written -/
theorem exists_spells_renderTerm (layout : Layout) (first : Bool) {q : Rat} {name : String}
    (hname : isName name.toList = true) (hwrites : limit.writes q = true) : ∃ w, SpellsTerm w (renderTerm layout first q name) ∧
      (first = false → w.sign ≠ none) ∧ ∀ t : Term, t.coef = q → ids name = some t.var → Means ids limit w t := by
  obtain ⟨coef, hcoef, hdenominator, hmagnitude, hshort⟩ := exists_spells_magnitudeText layout q
  refine ⟨⟨signOf layout first q, coef, name⟩, ?_, ?_, ?_⟩
  · refine .parts layout.before.2 layout.afterSign.2 hcoef layout.afterCoefficient.2 ?_ layout.afterStar.2 hname
      layout.after.2
    cases layout.star
    · exact .inl rfl
    · exact .inr rfl
  · rintro rfl
    simp only [signOf]
    split <;> simp
  · intro t ht hvar
    refine ⟨hdenominator, hshort limit hwrites, ?_, hvar⟩
    rw [WrittenTerm.number, hmagnitude, ht]
    by_cases hq : q < 0
    · simp [signOf, hq, abs_of_neg hq]
    · have hplus : signOf layout first q ≠ some true := by
        rw [signOf, if_neg hq]
        split <;> simp
      rw [if_neg hplus, abs_of_nonneg (not_lt.1 hq)]

theorem exists_spells_render {first : Bool} {items : List (Layout × Rat × String)} {terms : LinearForm}
    (hnames : ∀ i ∈ items, isName i.2.2.toList = true) (hwrites : ∀ i ∈ items, limit.writes i.2.1 = true)
    (hterms : List.Forall₂ (fun i t => t.coef = i.2.1 ∧ ids i.2.2 = some t.var) items terms) :
    ∃ ws, SpellsTerms first ws (render first items) ∧ List.Forall₂ (Means ids limit) ws terms := by
  induction hterms generalizing first with
  | nil => exact ⟨[], .nil first, .nil⟩
  | @cons i t items terms ht _ ih =>
    obtain ⟨layout, q, name⟩ := i
    obtain ⟨hname, hnames⟩ := List.forall_mem_cons.1 hnames
    obtain ⟨hwritesFirst, hwrites⟩ := List.forall_mem_cons.1 hwrites
    obtain ⟨ws, hws, hmeans⟩ :
        ∃ ws, SpellsTerms false ws (render false items) ∧ List.Forall₂ (Means ids limit) ws terms := ih hnames hwrites
    obtain ⟨w, hw, hsign, hmeansTerm⟩ := exists_spells_renderTerm layout first hname hwritesFirst
    exact ⟨w :: ws, .cons hsign hw hws, .cons (hmeansTerm t ht.1 ht.2) hmeans⟩

theorem read_render {items : List (Layout × Rat × String)} {terms : LinearForm} (hne : items ≠ [])
    (hnames : ∀ i ∈ items, isName i.2.2.toList = true) (hwrites : ∀ i ∈ items, limit.writes i.2.1 = true)
    (hterms : List.Forall₂ (fun i t => t.coef = i.2.1 ∧ ids i.2.2 = some t.var) items terms) :
    read ids (render true items) limit = .ok terms := by
  obtain ⟨ws, hws, hmeans⟩ := exists_spells_render hnames hwrites hterms
  refine read_of_spells hws ?_ hmeans
  rintro rfl
  cases hmeans
  cases hterms
  exact hne rfl

/-- a text is, white space around it set aside, a nonempty sequence of terms with known names, without a denominator
zero and with no run of digits over the limit -/
def Admits (ids : String → Option Int) (limit : DigitLimit) (cs : List Char) : Prop :=
  ∃ ws, ws ≠ [] ∧ SpellsTerms true ws (trim cs) ∧ ∀ w ∈ ws, Legal ids limit w

/-- **Left sides.** Under any limit on digits, reading accepts exactly the texts of its grammar, ends on every text and
reads back whatever is rendered. Without a limit no run of digits is too long and every number can be written, so that
nothing but the grammar decides; and what is read then is read alike under a limit, or refused for digits that are too
many for it. -/
theorem read_exact (ids : String → Option Int) (limit : DigitLimit) (cs : List Char) :
    ((∃ terms, read ids cs limit = .ok terms) ↔ Admits ids limit cs) ∧
    ((∃ fault, read ids cs limit = .error fault) ↔ ¬ Admits ids limit cs) ∧
    (∀ terms, read ids cs limit = .ok terms ↔
      ∃ ws, ws ≠ [] ∧ SpellsTerms true ws (trim cs) ∧ List.Forall₂ (Means ids limit) ws terms) ∧
    (∀ ws ws', SpellsTerms true ws (trim cs) → SpellsTerms true ws' (trim cs) → ws = ws') ∧
    (trim cs ≠ [] → Rounds ids limit true (trim cs) (read ids cs limit)) ∧
    (∀ (items : List (Layout × Rat × String)) (terms : LinearForm), items ≠ [] →
      (∀ i ∈ items, isName i.2.2.toList = true) → (∀ i ∈ items, limit.writes i.2.1 = true) →
      List.Forall₂ (fun i t => t.coef = i.2.1 ∧ ids i.2.2 = some t.var) items terms →
      read ids (render true items) limit = .ok terms) ∧
    (limit = none → (∀ runs, limit.Reads runs) ∧ ∀ q, limit.writes q = true) ∧
    (∀ terms, read ids cs none = .ok terms → read ids cs limit = .ok terms ∨
      ∃ most digits, limit = some most ∧ most < digits ∧
        read ids cs limit = .error (.tooLongToRead most digits)) := by
  have haccepts : (∃ terms, read ids cs limit = .ok terms) ↔ Admits ids limit cs := by
    constructor
    · rintro ⟨terms, h⟩
      obtain ⟨ws, hne, hws, hmeans⟩ := read_eq_ok_iff.1 h
      exact ⟨ws, hne, hws, legal_of_means hmeans⟩
    · rintro ⟨ws, hne, hws, hlegal⟩
      obtain ⟨terms, hmeans⟩ := exists_means hlegal
      exact ⟨terms, read_eq_ok_iff.2 ⟨ws, hne, hws, hmeans⟩⟩
  have hrefuses : (∃ fault, read ids cs limit = .error fault) ↔ ¬ Admits ids limit cs := by
    rw [← haccepts]
    cases read ids cs limit <;> simp
  refine ⟨haccepts, hrefuses, fun _ => read_eq_ok_iff, fun _ _ h h' => h.unique h' rfl, rounds_read,
    fun _ _ hne hnames hwrites hterms => read_render hne hnames hwrites hterms, ?_, fun _ => read_limited⟩
  rintro rfl
  exact ⟨DigitLimit.reads_none, DigitLimit.writes_none⟩

example : read (fun name => if name = "x" then some 0 else some 1) " 2x\t-3/4 * y_2".toList none =
    .ok [⟨2, 0⟩, ⟨-3/4, 1⟩] := by decide +kernel

example : read (fun _ => some 0) "12/345*x".toList (some 2) = .error (.tooLongToRead 2 3) := by decide +kernel

end LeftSide

end Halfspace
