/-
What a problem file can be wrong about, and where loading stops.

A line says nothing, declares names or states a constraint (`Takes`); if it does none of these, one thing in it is wrong
first (`Wrong`). Both are read off the grammar of lines: the parts between relations, the terms of the left side and the
number on the right.
- `divides_cutAtRelations`: cutting a line at its relations leaves nothing out;
- `loadLine_eq_ok_iff`, `wrong_of_loadLine`: one line;
- `loadFrom_cases`: all lines before the first that is wrong are taken over, and these only;
- `load_tells`: what is told of the wrong line. Its number is, with one exception: a zero denominator is passed on as a
  division by zero, wherever it stands (`quotient_is_unplaced`).
-/
import Halfspace.Proofs.Fallible
import Halfspace.Proofs.ProblemFile.Lines

namespace Halfspace

open Text

/-! ## Left sides -/

namespace LeftSide

variable {ids : String → Option Int} {limit : DigitLimit} {first : Bool} {cs : List Char} {fault : Fault}

/-- the first thing that is wrong in a left side; `first` says that no term came before -/
inductive Breaks (ids : String → Option Int) (limit : DigitLimit) : Bool → List Char → Fault → Prop where
  | unreadable {first : Bool} {cs : List Char} (hne : cs ≠ []) (hnone : ∀ w rest, ¬Begins w cs rest) :
      Breaks ids limit first cs (.unreadableTerm (String.ofList cs))
  | missingOperator {cs rest : List Char} {w : WrittenTerm} (hbegins : Begins w cs rest) (hsign : w.sign = none) :
      Breaks ids limit false cs (.missingOperator w.name)
  | undeclared {first : Bool} {cs rest : List Char} {w : WrittenTerm} (hbegins : Begins w cs rest)
      (hsign : first = false → w.sign ≠ none) (hname : ids w.name = none) :
      Breaks ids limit first cs (.undeclared w.name)
  | tooLong {first : Bool} {cs rest : List Char} {w : WrittenTerm} {most : Nat} {run : List Nat}
      {before after : List (List Nat)} (hbegins : Begins w cs rest) (hsign : first = false → w.sign ≠ none)
      (hname : (ids w.name).isSome) (hlimit : limit = some most) (hruns : runsOf w.coef = before ++ run :: after)
      (hbefore : limit.Reads before) (hlong : most < run.length) :
      Breaks ids limit first cs (.tooLongToRead most run.length)
  | zeroDenominator {first : Bool} {cs rest : List Char} {w : WrittenTerm} (hbegins : Begins w cs rest)
      (hsign : first = false → w.sign ≠ none) (hname : (ids w.name).isSome) (hshort : limit.Reads (runsOf w.coef))
      (hzero : denominatorOf w.coef = 0) : Breaks ids limit first cs .divisionByZero
  | later {first : Bool} {cs rest : List Char} {w : WrittenTerm} {fault : Fault} (hbegins : Begins w cs rest)
      (hsign : first = false → w.sign ≠ none) (hlegal : Legal ids limit w) (hrest : Breaks ids limit false rest fault) :
      Breaks ids limit first cs fault

/-- a term that is refused is wrong in itself or where it stands -/
theorem breaks_of_toTerm {rest : List Char} {w : WrittenTerm} (hbegins : Begins w cs rest)
    (h : w.toTerm ids limit first = .error fault) : Breaks ids limit first cs fault := by
  rw [WrittenTerm.toTerm] at h
  split at h
  · next hsign =>
    simp only [Bool.and_eq_true, Bool.not_eq_true', Option.isNone_iff_eq_none] at hsign
    obtain ⟨rfl, hnone⟩ := hsign
    cases h
    exact .missingOperator hbegins hnone
  · next hsign =>
    have hfirst : first = false → w.sign ≠ none := by
      rintro rfl hnone
      exact hsign (by simp [hnone])
    cases hname : ids w.name with
    | none =>
      rw [hname] at h
      cases h
      exact .undeclared hbegins hfirst hname
    | some x =>
      have hknown : (ids w.name).isSome := by simp [hname]
      simp only [hname, WrittenTerm.value_eq] at h
      cases hcheck : limit.checkRuns (runsOf w.coef) with
      | error fault' =>
        rw [hcheck] at h
        cases h
        obtain ⟨most, before, run, after, hlimit, hruns, hbefore, hlong, rfl⟩ := DigitLimit.checkRuns_error hcheck
        exact .tooLong hbegins hfirst hknown hlimit hruns hbefore hlong
      | ok _ =>
        rw [hcheck] at h
        by_cases hzero : denominatorOf w.coef = 0
        · rw [if_pos hzero] at h
          cases h
          exact .zeroDenominator hbegins hfirst hknown (DigitLimit.checkRuns_eq_ok_iff.1 hcheck) hzero
        · rw [if_neg hzero] at h
          cases h

/-- rounds end with the first thing that is wrong -/
theorem Rounds.breaks (h : Rounds ids limit first cs (.error fault)) : Breaks ids limit first cs fault := by
  generalize hr : (Except.error fault : Except Fault LinearForm) = r at h
  induction h with
  | finished => cases hr
  | unreadable hcs hread =>
    cases hr
    refine .unreadable hcs fun w rest hbegins => ?_
    rw [readTerm_eq_some_iff.2 hbegins] at hread
    cases hread
  | refused hread hterm =>
    cases hr
    exact breaks_of_toTerm (readTerm_eq_some_iff.1 hread) hterm
  | @next first cs rest w t r hread hterm _ ih =>
    obtain ⟨hsign, hmeans⟩ := toTerm_eq_ok_iff.1 hterm
    cases r with
    | ok terms => cases hr
    | error fault' =>
      cases hr
      exact .later (readTerm_eq_some_iff.1 hread) hsign
        ⟨by simp [hmeans.known], hmeans.denominator_ne, hmeans.short⟩ (ih rfl)

/-- what a left side is refused for -/
theorem read_error (h : read ids cs limit = .error fault) :
    trim cs = [] ∧ fault = .emptyLeftSide ∨ Breaks ids limit true (trim cs) fault := by
  by_cases hempty : trim cs = []
  · rw [read, hempty] at h
    cases h
    exact .inl ⟨hempty, rfl⟩
  · exact .inr (h ▸ rounds_read hempty).breaks

end LeftSide

namespace ProblemFile

variable {s s' : Solver} {lines : List String} {line : String} {cs left right : List Char} {relation : Relation}
  {fault cause : Fault} {settings : Settings}

/-! ## Lines cut at their relations -/

def Cut.text (cut : Cut) : List Char := cut.1 ++ cut.2.flatMap fun p => p.1.symbol.toList ++ p.2

/-- a cut that leaves nothing out of a text, and no relation in its parts -/
structure Cut.Divides (cut : Cut) (cs : List Char) : Prop where
  text_eq : cut.text = cs
  first : ∀ c ∈ cut.1, Loose c
  later : ∀ p ∈ cut.2, ∀ c ∈ p.2, Loose c

theorem Cut.Divides.startWith {cut : Cut} (h : cut.Divides cs) (r : Relation) :
    (Cut.startWith r cut).Divides (r.symbol.toList ++ cs) where
  text_eq := by rw [← h.text_eq]; simp [Cut.startWith, Cut.text]
  first := by simp [Cut.startWith]
  later := List.forall_mem_cons.2 ⟨h.first, h.later⟩

theorem Cut.Divides.cons {cut : Cut} (h : cut.Divides cs) {c : Char} (hc : Loose c) :
    (Cut.cons c cut).Divides (c :: cs) where
  text_eq := by rw [← h.text_eq]; rfl
  first := List.forall_mem_cons.2 ⟨hc, h.first⟩
  later := h.later

theorem divides_cutAtRelations (cs : List Char) : (cutAtRelations cs).Divides cs := by
  induction cs using cutAtRelations.induct with
  | case1 => exact ⟨rfl, by simp [cutAtRelations], by simp [cutAtRelations]⟩
  | case2 rest ih => exact ih.startWith .le
  | case3 rest ih => exact ih.startWith .ge
  | case4 rest hne ih => exact cutAtRelations.eq_4 rest hne ▸ ih.startWith .lt
  | case5 rest hne ih => exact cutAtRelations.eq_5 rest hne ▸ ih.startWith .gt
  | case6 rest ih => exact ih.startWith .eq
  | case7 c rest _ _ hlt hgt heq ih =>
    have hc : Loose c := ⟨hlt, hgt, heq⟩
    have hcut : cutAtRelations (c :: rest) = Cut.cons c (cutAtRelations rest) :=
      cutAtRelations_append (List.forall_mem_singleton.2 hc) rest
    exact hcut ▸ ih.cons hc

/-- a relation is cut off where none goes on behind it -/
theorem cutAtRelations_relation {rest : List Char} (h : Next Loose rest) (r : Relation) :
    cutAtRelations (r.symbol.toList ++ rest) = Cut.startWith r (cutAtRelations rest) := by
  have hne : ∀ tail, rest ≠ '=' :: tail := by
    rintro tail rfl
    exact (next_cons.1 h).2.2 rfl
  cases r with
  | lt => exact cutAtRelations.eq_4 rest hne
  | gt => exact cutAtRelations.eq_5 rest hne
  | le => rfl
  | ge => rfl
  | eq => rfl

/-- a text is two parts with a relation between them, no other relation in either, and no declaration -/
structure IsConstraint (cs left : List Char) (relation : Relation) (right : List Char) : Prop where
  text_eq : cs = left ++ (relation.symbol.toList ++ right)
  left_loose : ∀ c ∈ left, Loose c
  right_loose : ∀ c ∈ right, Loose c
  undeclared : declared? cs = none

theorem cutAtRelations_eq_iff : cutAtRelations cs = (left, [(relation, right)]) ↔
    cs = left ++ (relation.symbol.toList ++ right) ∧ (∀ c ∈ left, Loose c) ∧ ∀ c ∈ right, Loose c := by
  constructor
  · intro h
    have hdivides := divides_cutAtRelations cs
    rw [h] at hdivides
    refine ⟨?_, hdivides.first, hdivides.later _ (List.mem_singleton_self _)⟩
    rw [← hdivides.text_eq]
    simp [Cut.text]
  · rintro ⟨rfl, hleft, hright⟩
    have hcut : cutAtRelations right = (right, []) := by
      simpa [cutAtRelations] using cutAtRelations_append hright []
    rw [cutAtRelations_append hleft, cutAtRelations_relation (Next.of_forall hright), hcut]
    simp [Cut.startWith]

theorem IsConstraint.ne_nil (h : IsConstraint cs left relation right) : cs ≠ [] := by
  rw [h.text_eq]
  cases relation <;> simp [Relation.symbol]

/-! ## What a line says -/

def idOf (s : Solver) (name : String) : Option Int := (s.vars.index? name).map fun (x : Nat) => (x : Int)

/-- a line is a statement, and what becomes of the solver -/
inductive Takes (s : Solver) (line : String) : Solver → Prop where
  | blank (h : statementOf line = []) : Takes s line s
  | declaration {names : List String} (h : declared? (statementOf line) = some names) :
      Takes s line (names.foldl Solver.addVar s)
  | constraint {left right : List Char} {relation : Relation} {ws : List LeftSide.WrittenTerm} {terms : LinearForm}
      {rhs : Rat} (hparts : IsConstraint (statementOf line) left relation right) (hne : ws ≠ [])
      (hspells : LeftSide.SpellsTerms true ws (trim left)) (hmeans : List.Forall₂ (LeftSide.Means (idOf s) s.settings.digitLimit) ws terms)
      (hright : Numeral.read (String.ofList (trim right)) s.settings.digitLimit = .ok rhs) : Takes s line (s.register terms relation rhs)

/-- the first thing that is wrong in a line -/
inductive Wrong (s : Solver) (line : String) : Fault → Prop where
  | relations (hne : statementOf line ≠ []) (hdeclared : declared? (statementOf line) = none)
      (hparts : ∀ left relation right, ¬IsConstraint (statementOf line) left relation right) :
      Wrong s line (.relationCount (String.ofList (statementOf line)))
  | empty {left right : List Char} {relation : Relation} (hparts : IsConstraint (statementOf line) left relation right)
      (hleft : trim left = []) : Wrong s line .emptyLeftSide
  | left {left right : List Char} {relation : Relation} {fault : Fault}
      (hparts : IsConstraint (statementOf line) left relation right)
      (hleft : LeftSide.Breaks (idOf s) s.settings.digitLimit true (trim left) fault) : Wrong s line fault
  | right {left right : List Char} {relation : Relation} {fault : Fault}
      (hparts : IsConstraint (statementOf line) left relation right) 
      (hleft : LeftSide.Admits (idOf s) s.settings.digitLimit left)
      (hright : Numeral.read (String.ofList (trim right)) s.settings.digitLimit = .error fault) : Wrong s line fault

/-- what a text can be wrong about, zero denominators aside -/
inductive Textual : Fault → Prop where
  | relationCount (line : String) : Textual (.relationCount line)
  | emptyLeftSide : Textual .emptyLeftSide
  | unreadableTerm (rest : String) : Textual (.unreadableTerm rest)
  | missingOperator (name : String) : Textual (.missingOperator name)
  | undeclared (name : String) : Textual (.undeclared name)
  | badNumber (text : String) : Textual (.badNumber text)
  | badDecimals (letters : String) : Textual (.badDecimals letters)
  | tooLongToRead (most digits : Nat) : Textual (.tooLongToRead most digits)

theorem textual_of_breaks {ids : String → Option Int} {limit : DigitLimit} {first : Bool}
    (h : LeftSide.Breaks ids limit first cs fault) : Textual fault ∨ fault = .divisionByZero := by
  induction h with
  | unreadable => exact .inl (.unreadableTerm _)
  | missingOperator => exact .inl (.missingOperator _)
  | undeclared => exact .inl (.undeclared _)
  | tooLong => exact .inl (.tooLongToRead _ _)
  | zeroDenominator => exact .inr rfl
  | later _ _ _ _ ih => exact ih

/-- there are few things that a line can be wrong about -/
theorem Wrong.textual (h : Wrong s line fault) : Textual fault ∨ fault = .divisionByZero := by
  cases h with
  | relations => exact .inl (.relationCount _)
  | empty => exact .inl .emptyLeftSide
  | left _ hleft => exact textual_of_breaks hleft
  | right _ _ hright =>
    rcases Numeral.read_error hright with rfl | ⟨letters, rfl⟩ | ⟨most, digits, -, -, rfl⟩ | ⟨rfl, -⟩
    · exact .inl (.badNumber _)
    · exact .inl (.badDecimals letters)
    · exact .inl (.tooLongToRead most digits)
    · exact .inr rfl

theorem Textual.locate_eq (h : Textual fault) (number : Nat) : locate number fault = .atLine number fault := by
  cases h <;> rfl

/-! ## One line -/

/-- a text that is no declaration states a constraint, or is refused for its relations -/
theorem isConstraint_or_error (s : Solver) (hdeclared : declared? cs = none) :
    (∃ left relation right, IsConstraint cs left relation right) ∨
      (∀ left relation right, ¬IsConstraint cs left relation right) ∧
        loadConstraint s cs = .error (.relationCount (String.ofList cs)) := by
  rcases hcut : cutAtRelations cs with ⟨left, _ | ⟨⟨relation, right⟩, _ | ⟨piece, pieces⟩⟩⟩
  case cons.nil =>
    obtain ⟨htext, hleft, hright⟩ := cutAtRelations_eq_iff.1 hcut
    exact .inl ⟨left, relation, right, htext, hleft, hright, hdeclared⟩
  all_goals
    refine .inr ⟨fun left' relation' right' h => ?_, by rw [loadConstraint, hcut]⟩
    cases hcut.symm.trans (cutAtRelations_eq_iff.2 ⟨h.text_eq, h.left_loose, h.right_loose⟩)

theorem loadConstraint_eq (h : IsConstraint cs left relation right) : loadConstraint s cs = do
    let terms ← LeftSide.read (idOf s) left s.settings.digitLimit
    let rhs ← Numeral.read (String.ofList (trim right)) s.settings.digitLimit
    return s.register terms relation rhs := by
  rw [loadConstraint, cutAtRelations_eq_iff.2 ⟨h.text_eq, h.left_loose, h.right_loose⟩]
  rfl

theorem mapError_eq_ok_iff {α : Type} {x : Except Fault α} {f : Fault → Fault} {a : α} :
    x.mapError f = .ok a ↔ x = .ok a := by
  cases x <;> simp [Except.mapError]

/-- **Statements.** A line is taken over exactly if it is a statement, as it is one. -/
theorem loadLine_eq_ok_iff (number : Nat) : loadLine s number line = .ok s' ↔ Takes s line s' := by
  constructor
  · intro h
    by_cases hempty : statementOf line = []
    · rw [loadLine, hempty] at h
      cases h
      exact .blank hempty
    rw [loadLine_eq number rfl hempty] at h
    cases hdeclared : declared? (statementOf line) with
    | some names =>
      rw [hdeclared] at h
      cases h
      exact .declaration hdeclared
    | none =>
      simp only [hdeclared, mapError_eq_ok_iff] at h
      rcases isConstraint_or_error s hdeclared with ⟨left, relation, right, hparts⟩ | ⟨-, herror⟩
      · rw [loadConstraint_eq hparts] at h
        obtain ⟨terms, hterms, h⟩ := bind_eq_ok_iff.1 h
        obtain ⟨rhs, hrhs, h⟩ := bind_eq_ok_iff.1 h
        cases h
        obtain ⟨ws, hne, hspells, hmeans⟩ := LeftSide.read_eq_ok_iff.1 hterms
        exact .constraint hparts hne hspells hmeans hrhs
      · cases h.symm.trans herror
  · intro h
    cases h with
    | blank hempty => rw [loadLine, hempty]
    | @declaration names hdeclared =>
      have hempty : statementOf line ≠ [] := by
        intro hnil
        rw [hnil] at hdeclared
        cases hdeclared
      rw [loadLine_eq number rfl hempty, hdeclared]
    | constraint hparts hne hspells hmeans hright =>
      rw [loadLine_eq number rfl hparts.ne_nil, hparts.undeclared]
      simp only [mapError_eq_ok_iff, loadConstraint_eq hparts, LeftSide.read_eq_ok_iff.2 ⟨_, hne, hspells, hmeans⟩,
        hright]
      rfl

/-- **Faults.** A line that is not taken over is wrong about what the fault says. -/
theorem wrong_of_loadLine {number : Nat} (h : loadLine s number line = .error fault) :
    ∃ cause, Wrong s line cause ∧ fault = locate number cause := by
  by_cases hempty : statementOf line = []
  · rw [loadLine, hempty] at h
    cases h
  rw [loadLine_eq number rfl hempty] at h
  cases hdeclared : declared? (statementOf line) with
  | some names =>
    rw [hdeclared] at h
    cases h
  | none =>
    simp only [hdeclared] at h
    obtain ⟨cause, hcause⟩ : ∃ cause, loadConstraint s (statementOf line) = .error cause := by
      cases hload : loadConstraint s (statementOf line) with
      | ok t =>
        rw [hload] at h
        cases h
      | error cause => exact ⟨cause, rfl⟩
    rw [hcause] at h
    refine ⟨cause, ?_, (Except.error.inj h).symm⟩
    rcases isConstraint_or_error s hdeclared with ⟨left, relation, right, hparts⟩ | ⟨hparts, herror⟩
    · rw [loadConstraint_eq hparts] at hcause
      cases hterms : LeftSide.read (idOf s) left s.settings.digitLimit with
      | error fault' =>
        rw [hterms] at hcause
        cases hcause
        rcases LeftSide.read_error hterms with ⟨hleft, rfl⟩ | hbreaks
        · exact .empty hparts hleft
        · exact .left hparts hbreaks
      | ok terms =>
        obtain ⟨ws, hne, hspells, hmeans⟩ := LeftSide.read_eq_ok_iff.1 hterms
        have hadmits : LeftSide.Admits (idOf s) s.settings.digitLimit left :=
          ⟨ws, hne, hspells, LeftSide.legal_of_means hmeans⟩
        cases hrhs : Numeral.read (String.ofList (trim right)) s.settings.digitLimit with
        | error fault' =>
          rw [hterms, hrhs] at hcause
          cases hcause
          exact .right hparts hadmits hrhs
        | ok rhs =>
          rw [hterms, hrhs] at hcause
          cases hcause
    · cases hcause.symm.trans herror
      exact .relations hempty hdeclared hparts

/-! ## All lines -/

/-- lines are statements one after another -/
inductive TakesAll : Solver → List String → Solver → Prop where
  | nil (s : Solver) : TakesAll s [] s
  | cons {s s' s'' : Solver} {line : String} {lines : List String} (hline : Takes s line s')
      (hlines : TakesAll s' lines s'') : TakesAll s (line :: lines) s''

/-- lines of which all are taken over, or those before the first that is no statement -/
theorem loadFrom_cases (s : Solver) (number : Nat) (lines : List String) :
    (∃ t, TakesAll s lines t ∧ loadFrom s number lines = { solver := t }) ∨
      ∃ before line after t cause, lines = before ++ line :: after ∧ TakesAll s before t ∧ (∀ t', ¬Takes t line t') ∧
        Wrong t line cause ∧
        loadFrom s number lines = { solver := t, fault := some (locate (number + before.length) cause) } := by
  induction lines generalizing s number with
  | nil => exact .inl ⟨s, .nil s, rfl⟩
  | cons line lines ih =>
    rw [loadFrom]
    cases hline : loadLine s number line with
    | ok s' =>
      have htakes := (loadLine_eq_ok_iff number).1 hline
      rcases ih s' (number + 1) with
        ⟨t, hall, hload⟩ | ⟨before, wrong, after, t, cause, rfl, hall, hnone, hwrong, hload⟩
      · exact .inl ⟨t, .cons htakes hall, hload⟩
      · refine .inr ⟨line :: before, wrong, after, t, cause, rfl, .cons htakes hall, hnone, hwrong, ?_⟩
        have hnumber : number + 1 + before.length = number + (line :: before).length := by
          rw [List.length_cons]
          omega
        exact hnumber ▸ hload
    | error fault =>
      obtain ⟨cause, hwrong, rfl⟩ := wrong_of_loadLine hline
      refine .inr ⟨[], line, lines, s, cause, rfl, .nil s, fun t htakes => ?_, hwrong, rfl⟩
      rw [(loadLine_eq_ok_iff number).2 htakes] at hline
      cases hline

theorem TakesAll.loadFrom_eq {t : Solver} (h : TakesAll s lines t) (number : Nat) :
    loadFrom s number lines = { solver := t } := by
  induction h generalizing number with
  | nil s => rfl
  | cons hline _ ih =>
    rw [loadFrom, (loadLine_eq_ok_iff number).2 hline]
    exact ih (number + 1)

/-- how loading a file ends -/
structure Tells (settings : Settings) (lines : List String) : Prop where
  /-- all lines are statements -/
  taken : ∀ t, TakesAll (Solver.new settings) lines t → load settings lines = { solver := t }
  /-- a line is no statement; those before the first such line are taken over, and its number is told unless it is wrong
  about a zero denominator -/
  stopped : (∀ t, ¬TakesAll (Solver.new settings) lines t) → ∃ before line after t cause,
    lines = before ++ line :: after ∧ TakesAll (Solver.new settings) before t ∧ (∀ t', ¬Takes t line t') ∧
    Wrong t line cause ∧ (load settings lines).solver = t ∧
    (Textual cause ∧ (load settings lines).fault = some (.atLine (before.length + 1) cause) ∧
        (load settings lines).fault.map Fault.message =
          some ("Line " ++ toString (before.length + 1) ++ ": " ++ cause.message) ∨
      cause = .divisionByZero ∧ (load settings lines).fault = some .divisionByZero)

/-- **Any text.** Loading takes over every line, or it stops at the first that is no statement, with the lines before it
taken over and what is wrong with this line told. The line is told by its number except for a zero denominator. -/
theorem load_tells (settings : Settings) (lines : List String) : Tells settings lines := by
  constructor
  case taken => exact fun t htakes => htakes.loadFrom_eq 1
  case stopped =>
    intro hnone
    rcases loadFrom_cases (Solver.new settings) 1 lines with
      ⟨t, htakes, -⟩ | ⟨before, line, after, t, cause, hlines, hbefore, hline, hwrong, hload⟩
    · exact absurd htakes (hnone t)
    · have hload' : load settings lines =
          { solver := t, fault := some (locate (before.length + 1) cause) } := by
        rw [load, hload, Nat.add_comm]
      refine ⟨before, line, after, t, cause, hlines, hbefore, hline, hwrong, by rw [hload'], ?_⟩
      rw [hload']
      rcases hwrong.textual with htextual | rfl
      · rw [htextual.locate_eq]
        exact .inl ⟨htextual, rfl, rfl⟩
      · exact .inr ⟨rfl, rfl⟩

/-- A zero denominator on the second line. Of the two lines the first is taken over and the second is no statement, but
the fault does not say which line it is in. -/
theorem quotient_is_unplaced :
    (∃ t, TakesAll (Solver.new {}) ["var x"] t ∧ ∀ t', ¬Takes t "x <= 1/0" t') ∧
    (load {} ["var x", "x <= 1/0"]).fault = some .divisionByZero ∧
    (∀ number cause, (load {} ["var x", "x <= 1/0"]).fault ≠ some (.atLine number cause)) ∧
    (load {} ["var x", "x <= 1/0"]).fault.map Fault.message = some "division by zero" ∧
    (load {} ["var x", "x <= 1/0"]).solver.vars.names = ["x"] ∧
    (load {} ["var x", "x <= 1/0"]).solver.constraints = [] := by
  have hfault : (load {} ["var x", "x <= 1/0"]).fault = some .divisionByZero := by decide +kernel
  have hdeclared : declared? (statementOf "var x") = some ["x"] := by decide +kernel
  have hline : (loadLine ((Solver.new {}).addVar "x") 2 "x <= 1/0").map (fun _ => ()) = .error .divisionByZero := by
    decide +kernel
  refine ⟨⟨_, .cons (.declaration hdeclared) (.nil _), fun t' htakes => ?_⟩, hfault, ?_, ?_, ?_, ?_⟩
  · rw [List.foldl_cons, List.foldl_nil, ← loadLine_eq_ok_iff 2] at htakes
    rw [htakes] at hline
    cases hline
  · rw [hfault]
    exact fun _ _ h => nomatch h
  · rw [hfault]
    rfl
  · decide +kernel
  · decide +kernel

end ProblemFile

end Halfspace
