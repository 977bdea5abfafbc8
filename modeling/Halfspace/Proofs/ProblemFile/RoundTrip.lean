/-
Files are loaded as they were written, but for one name.

`write` makes a file of names and constraints over them. Taking over one of its lines has one outcome
(`loadLine_declaration`, `loadLine_text`), taking over all of them has the outcomes one after another
(`loadFrom_texts`, `loadFrom_texts_of_named`), and blank lines and comments put into a file make no difference
(`loadFrom_adorned`). So a file is restored (`restored_iff`) unless a constraint opens with a variable that is named `var`
and has the coefficient one: its line begins like a declaration, is taken for one, and the constraint is lost without a
fault (`bare_is_lost`). Any other term may bear the name.
-/
import Halfspace.Proofs.Alignment
import Halfspace.Proofs.Names
import Halfspace.Proofs.ProblemFile.Lines

namespace Halfspace

open Text

/-! ## Names and variables -/

namespace Solver

theorem names_addVars (names : List String) (s : Solver) :
    (names.foldl addVar s).vars.names = s.vars.names ++ names ∧
      (names.foldl addVar s).constraints = s.constraints ∧ (names.foldl addVar s).settings = s.settings := by
  induction names generalizing s with
  | nil => exact ⟨(List.append_nil _).symm, rfl, rfl⟩
  | cons name names ih =>
    obtain ⟨hnames, hframe⟩ := ih (s.addVar name)
    refine ⟨hnames.trans ?_, hframe⟩
    simp [addVar, Variables.add]

end Solver

namespace ProblemFile

open LeftSide (isName)

variable {st : Statement} {s : Solver}

/-! ## Taking over a line -/

def Statement.termsIn (v : Variables) (st : Statement) : LinearForm :=
  st.terms.map fun t => ⟨t.1, ((v.index? t.2).getD 0 : Nat)⟩

/-- the numbers of a constraint can be written -/
def Statement.Writable (limit : DigitLimit) (st : Statement) : Prop :=
  (∀ t ∈ st.terms, limit.writes t.1 = true) ∧ limit.writes st.rhs = true

instance (limit : DigitLimit) (st : Statement) : Decidable (st.Writable limit) :=
  inferInstanceAs (Decidable (_ ∧ _))

theorem loadConstraint_text (h : st.Valid) (hwritable : st.Writable s.settings.digitLimit)
    (hknown : ∀ t ∈ st.terms, t.2 ∈ s.vars.names) :
    loadConstraint s st.text.toList = .ok (s.register (st.termsIn s.vars) st.relation st.rhs) := by
  have hterms : List.Forall₂
      (fun (i : LeftSide.Layout × Rat × String) (t : Term) =>
        t.coef = i.2.1 ∧ (s.vars.index? i.2.2).map (fun (x : Nat) => (x : Int)) = some t.var)
      (laidOut true st.terms) (st.termsIn s.vars) := by
    rw [← List.forall₂_map_left_iff (f := Prod.snd) (R := fun (p : Rat × String) (t : Term) =>
      t.coef = p.1 ∧ (s.vars.index? p.2).map (fun (x : Nat) => (x : Int)) = some t.var), map_laidOut]
    refine List.forall₂_map_right_iff.2 (List.forall₂_same.2 fun t ht => ⟨rfl, ?_⟩)
    obtain ⟨x, hx⟩ := Option.isSome_iff_exists.1 (Variables.latest_isSome_iff.2 (hknown t ht))
    have hindex : s.vars.index? t.2 = some x := hx
    simp [hindex]
  have hlaid : laidOut true st.terms ≠ [] := fun hnil =>
    h.terms_ne (by rw [← map_laidOut true st.terms, hnil]; rfl)
  have hleft : LeftSide.read (fun name => (s.vars.index? name).map fun (x : Nat) => (x : Int))
      ((leftText st.terms).toList ++ [' ']) s.settings.digitLimit = .ok (st.termsIn s.vars) := by
    rw [LeftSide.read_append_blanks (by decide), toList_leftText]
    refine LeftSide.read_render hlaid h.names_laidOut (fun i hi => ?_) hterms
    exact hwritable.1 i.2 (map_laidOut true st.terms ▸ List.mem_map_of_mem hi)
  have hright : trim (' ' :: (fraction st.rhs).toList) = (fraction st.rhs).toList := by
    have hspace : Blanks [' '] := by decide
    calc trim (' ' :: (fraction st.rhs).toList)
        = trim ([' '] ++ ((fraction st.rhs).toList ++ [])) := by rw [List.append_nil, List.singleton_append]
      _ = trim (fraction st.rhs).toList := trim_surround hspace blanks_nil _
      _ = (fraction st.rhs).toList := trim_of_forall fun c hc => Numeral.isBlank_of_mem_fraction hc
  simp only [loadConstraint, cutAtRelations_text h, hleft, hright, String.ofList_toList,
    Numeral.read_fraction hwritable.2]
  rfl

def Statement.OpensBare (st : Statement) : Prop := st.terms.head? = some (1, "var")

instance (st : Statement) : Decidable st.OpensBare := inferInstanceAs (Decidable (_ = _))

/-- a written constraint is registered, unless its line is taken for a declaration -/
theorem loadLine_text (number : Nat) (h : st.Valid) (hwritable : st.Writable s.settings.digitLimit)
    (hknown : ∀ t ∈ st.terms, t.2 ∈ s.vars.names) :
    (¬ st.OpensBare ∧ loadLine s number st.text = .ok (s.register (st.termsIn s.vars) st.relation st.rhs)) ∨
      (st.OpensBare ∧ ∃ names : List String, loadLine s number st.text = .ok (names.foldl Solver.addVar s)) := by
  obtain ⟨t, rest, hterms⟩ := List.exists_cons_of_ne_nil h.terms_ne
  have hbare : (declared? st.text.toList).isSome ↔ st.OpensBare := by
    rw [declared?_text hterms (h.names t (hterms ▸ List.mem_cons_self)), Statement.OpensBare, hterms]
    simp [Prod.ext_iff]
  have htext : st.text.toList ≠ [] := by simp [toList_text]
  rw [loadLine_eq number (statementOf_text h) htext]
  cases hdeclared : declared? st.text.toList with
  | none =>
    rw [hdeclared] at hbare
    refine .inl ⟨fun hopens => absurd (hbare.2 hopens) (by decide), ?_⟩
    simp only [loadConstraint_text h hwritable hknown]
    rfl
  | some names =>
    rw [hdeclared] at hbare
    exact .inr ⟨hbare.1 rfl, names, rfl⟩

theorem loadLine_declaration (number : Nat) {names : List String} (hne : names ≠ [])
    (h : ∀ n ∈ names, isName n.toList = true) :
    loadLine s number (declaration names) = .ok (names.foldl Solver.addVar s) := by
  obtain ⟨name, names, rfl⟩ := List.exists_cons_of_ne_nil hne
  have htext : (declaration (name :: names)).toList ≠ [] := by simp [toList_declaration]
  rw [loadLine_eq number (statementOf_declaration h) htext, declared?_declaration h]

/-! ## Taking over constraints -/

/-- written constraints are taken over without a fault, and as many are registered as do not open with a bare `var` -/
theorem loadFrom_texts (number : Nat) {statements : List Statement} (hvalid : ∀ st ∈ statements, st.Valid)
    (hwritable : ∀ st ∈ statements, st.Writable s.settings.digitLimit)
    (hknown : ∀ st ∈ statements, ∀ t ∈ st.terms, t.2 ∈ s.vars.names) :
    (loadFrom s number (statements.map Statement.text)).fault = none ∧
      (loadFrom s number (statements.map Statement.text)).solver.constraints.length =
        s.constraints.length + statements.countP fun st => ¬ st.OpensBare := by
  induction statements generalizing s number with
  | nil => exact ⟨rfl, rfl⟩
  | cons st statements ih =>
    obtain ⟨hst, hvalid⟩ := List.forall_mem_cons.1 hvalid
    obtain ⟨hwritableSt, hwritable⟩ := List.forall_mem_cons.1 hwritable
    obtain ⟨hknownSt, hknown⟩ := List.forall_mem_cons.1 hknown
    rw [List.map_cons, loadFrom]
    rcases loadLine_text number hst hwritableSt hknownSt with ⟨hbare, hline⟩ | ⟨hbare, names, hline⟩
    · have hkept : ∀ st' ∈ statements, ∀ t ∈ st'.terms,
          t.2 ∈ (s.register (st.termsIn s.vars) st.relation st.rhs).vars.names := by
        rwa [Solver.names_register]
      obtain ⟨hfault, hcount⟩ :=
        ih (number + 1) hvalid (by rwa [Solver.settings_register]) hkept
      simp only [hline]
      refine ⟨hfault, hcount.trans ?_⟩
      rw [Solver.constraints_register, List.countP_cons_of_pos (by simpa using hbare), List.length_append,
        List.length_singleton]
      omega
    · obtain ⟨hadded, hconstraints, hsettings⟩ := Solver.names_addVars names s
      have hkept : ∀ st' ∈ statements, ∀ t ∈ st'.terms, t.2 ∈ (names.foldl Solver.addVar s).vars.names := by
        intro st' hst' t ht
        rw [hadded]
        exact List.mem_append_left _ (hknown st' hst' t ht)
      obtain ⟨hfault, hcount⟩ := ih (number + 1) hvalid (hsettings ▸ hwritable) hkept
      simp only [hline]
      refine ⟨hfault, hcount.trans ?_⟩
      rw [hconstraints, List.countP_cons_of_neg (by simpa using hbare)]

/-- a constraint as it is registered when the names are numbered in their order -/
def Statement.constraint (names : List String) (id : Nat) (st : Statement) : Constraint :=
  ⟨id, st.terms.map fun t => ⟨t.1, (names.idxOf t.2 : Nat)⟩, st.relation, st.rhs⟩

theorem termsIn_eq {v : Variables} (hnodup : v.names.Nodup) (hover : ∀ t ∈ st.terms, t.2 ∈ v.names) :
    st.termsIn v = st.terms.map fun t => ⟨t.1, (v.names.idxOf t.2 : Nat)⟩ := by
  apply List.map_congr_left
  intro t ht
  have hindex : v.index? t.2 = some (0 + v.names.idxOf t.2) := Variables.latest_of_nodup hnodup (hover t ht)
  simp [hindex]

/-- constraints none of which opens with a bare `var` are all registered, in their order -/
theorem loadFrom_texts_of_named (number : Nat) {statements : List Statement} (hnodup : s.vars.names.Nodup)
    (hvalid : ∀ st ∈ statements, st.Valid) (hwritable : ∀ st ∈ statements, st.Writable s.settings.digitLimit)
    (hover : ∀ st ∈ statements, ∀ t ∈ st.terms, t.2 ∈ s.vars.names)
    (hbare : ∀ st ∈ statements, ¬ st.OpensBare) :
    (loadFrom s number (statements.map Statement.text)).solver.vars.names = s.vars.names ∧
      (loadFrom s number (statements.map Statement.text)).solver.constraints = s.constraints ++
        statements.mapIdx fun k st => st.constraint s.vars.names (s.constraints.length + k) := by
  induction statements generalizing s number with
  | nil => exact ⟨rfl, (List.append_nil _).symm⟩
  | cons st statements ih =>
    obtain ⟨hst, hvalid⟩ := List.forall_mem_cons.1 hvalid
    obtain ⟨hwritableSt, hwritable⟩ := List.forall_mem_cons.1 hwritable
    obtain ⟨hoverSt, hover⟩ := List.forall_mem_cons.1 hover
    obtain ⟨hbareSt, hbare⟩ := List.forall_mem_cons.1 hbare
    have hline : loadLine s number st.text = .ok (s.register (st.termsIn s.vars) st.relation st.rhs) := by
      rcases loadLine_text number hst hwritableSt hoverSt with ⟨-, hline⟩ | ⟨hopens, -⟩
      · exact hline
      · exact absurd hopens hbareSt
    have hnames := Solver.names_register s (st.termsIn s.vars) st.relation st.rhs
    have hsettings := Solver.settings_register s (st.termsIn s.vars) st.relation st.rhs
    obtain ⟨hkept, hconstraints⟩ :=
      ih (number + 1) (hnames ▸ hnodup) hvalid (hsettings ▸ hwritable) (hnames ▸ hover) hbare
    rw [List.map_cons, loadFrom, hline]
    refine ⟨hkept.trans hnames, hconstraints.trans ?_⟩
    rw [Solver.constraints_register, hnames, List.mapIdx_cons, termsIn_eq hnodup hoverSt, List.append_assoc]
    simp only [List.length_append, List.length_singleton, List.singleton_append, Nat.add_zero, Nat.add_assoc,
      Nat.add_comm 1]
    rfl

/-! ## Blank lines and comments -/

def IsComment (cs : List Char) : Prop := cs = [] ∨ ∃ text, cs = '#' :: text

/-- lines with blank lines and comment lines put between them, and white space and comments put around what they say -/
inductive Adorned : List String → List String → Prop where
  | nil : Adorned [] []
  | insert {lines lines' : List String} {line : String} {blank comment : List Char} (hblank : Blanks blank)
      (hcomment : IsComment comment) (hline : line.toList = blank ++ comment) (h : Adorned lines lines') :
      Adorned lines (line :: lines')
  | keep {lines lines' : List String} {line line' : String} {before after comment : List Char} (hbefore : Blanks before)
      (hafter : Blanks after) (hcomment : IsComment comment)
      (hline : line'.toList = before ++ (line.toList ++ (after ++ comment))) (h : Adorned lines lines') :
      Adorned (line :: lines) (line' :: lines')

theorem takeWhile_comment {blank comment : List Char} (hblank : Blanks blank) (hcomment : IsComment comment) :
    (blank ++ comment).takeWhile (· ≠ '#') = blank := by
  rw [List.takeWhile_append_of_pos fun c hc => decide_eq_true (plain_of_isBlank (hblank c hc)).2.2.2]
  rcases hcomment with rfl | ⟨text, rfl⟩ <;> simp

/-- a line of white space and a comment says nothing -/
theorem statementOf_inserted {line : String} {blank comment : List Char} (hblank : Blanks blank)
    (hcomment : IsComment comment) (hline : line.toList = blank ++ comment) : statementOf line = [] := by
  rw [statementOf, hline, takeWhile_comment hblank hcomment, trim_eq, skipBlanks_eq_nil_iff.2 hblank]
  rfl

theorem statementOf_kept {line line' : String} {before after comment : List Char} (hbefore : Blanks before)
    (hafter : Blanks after) (hcomment : IsComment comment)
    (hline : line'.toList = before ++ (line.toList ++ (after ++ comment))) : statementOf line' = statementOf line := by
  have hsame : (line.toList ++ (after ++ comment)).takeWhile (· ≠ '#') = line.toList.takeWhile (· ≠ '#') ∨
      (line.toList ++ (after ++ comment)).takeWhile (· ≠ '#') = line.toList.takeWhile (· ≠ '#') ++ after := by
    rw [List.takeWhile_append]
    split
    · next hlength =>
      rw [takeWhile_comment hafter hcomment, (List.takeWhile_prefix _).eq_of_length hlength]
      exact .inr rfl
    · exact .inl rfl
  rw [statementOf, statementOf, hline, List.takeWhile_append_of_pos fun c hc =>
    decide_eq_true (plain_of_isBlank (hbefore c hc)).2.2.2]
  rcases hsame with hsame | hsame
  · rw [hsame, ← List.append_nil (List.takeWhile _ _), trim_surround hbefore blanks_nil, List.append_nil]
  · rw [hsame, trim_surround hbefore hafter]

theorem loadLine_toOption {line line' : String} (number number' : Nat) (h : statementOf line' = statementOf line) :
    (loadLine s number' line').toOption = (loadLine s number line).toOption := by
  rw [loadLine, loadLine, h]
  split
  · rfl
  · split
    · rfl
    · cases loadConstraint s (statementOf line) <;> rfl

/-- blank lines and comments change nothing -/
theorem loadFrom_adorned {lines lines' : List String} (h : Adorned lines lines') (number number' : Nat) (s : Solver) :
    (loadFrom s number' lines').solver = (loadFrom s number lines).solver ∧
      ((loadFrom s number' lines').fault = none ↔ (loadFrom s number lines).fault = none) := by
  induction h generalizing number number' s with
  | nil => exact ⟨rfl, Iff.rfl⟩
  | insert hblank hcomment hline _ ih =>
    have hempty := statementOf_inserted hblank hcomment hline
    rw [loadFrom, loadLine, hempty]
    exact ih number (number' + 1) s
  | @keep lines lines' line line' before after comment hbefore hafter hcomment hline _ ih =>
    have hsame := loadLine_toOption (s := s) number number' (statementOf_kept hbefore hafter hcomment hline)
    rw [loadFrom, loadFrom]
    cases h : loadLine s number line with
    | error fault =>
      cases h' : loadLine s number' line' with
      | error fault' => simp
      | ok s' => simp [h, h', Except.toOption] at hsame
    | ok s' =>
      cases h' : loadLine s number' line' with
      | error fault' => simp [h, h', Except.toOption] at hsame
      | ok s'' =>
        rw [h, h'] at hsame
        cases hsame
        exact ih (number + 1) (number' + 1) s'

/-! ## Files -/

/-- a solver holds the names of a file, each numbered by its place, and the constraints of the file and no others -/
structure Restored (names : List String) (statements : List Statement) (s : Solver) : Prop where
  names_eq : s.vars.names = names
  numbered : ∀ i name, names[i]? = some name → s.vars.index? name = some i
  constraints_eq : s.constraints = statements.mapIdx fun k st => st.constraint names k

/-- **Round trip.** A written file is loaded without a fault, blank lines and comments put into it change nothing, and it
is restored exactly if no constraint opens with a bare `var`. -/
theorem restored_iff {settings : Settings} {names : List String} {statements : List Statement} {lines : List String}
    (hne : names ≠ []) (hnodup : names.Nodup) (hnames : ∀ n ∈ names, isName n.toList = true)
    (hterms : ∀ st ∈ statements, st.terms ≠ [] ∧ ∀ t ∈ st.terms, t.2 ∈ names)
    (hwritable : ∀ st ∈ statements, st.Writable settings.digitLimit)
    (hlines : Adorned (write names statements) lines) :
    (load settings lines).fault = none ∧
      (load settings lines).solver = (load settings (write names statements)).solver ∧
      (Restored names statements (load settings lines).solver ↔ ∀ st ∈ statements, ¬ st.OpensBare) := by
  obtain ⟨hadded, hconstraints, hsettings⟩ := Solver.names_addVars names (Solver.new settings)
  have hdeclared : loadFrom (Solver.new settings) 1 (write names statements) =
      loadFrom (names.foldl Solver.addVar (Solver.new settings)) 2 (statements.map Statement.text) := by
    rw [write, loadFrom, loadLine_declaration 1 hne hnames]
  generalize names.foldl Solver.addVar (Solver.new settings) = s at hadded hconstraints hsettings hdeclared
  have hvars : s.vars.names = names := hadded
  have hnone : s.constraints = [] := hconstraints
  have hvalid : ∀ st ∈ statements, st.Valid := fun st hst =>
    ⟨(hterms st hst).1, fun t ht => hnames t.2 ((hterms st hst).2 t ht)⟩
  have hover : ∀ st ∈ statements, ∀ t ∈ st.terms, t.2 ∈ s.vars.names := fun st hst t ht =>
    hvars ▸ (hterms st hst).2 t ht
  have hwritable' : ∀ st ∈ statements, st.Writable s.settings.digitLimit := by rwa [hsettings]
  obtain ⟨hfault, hcount⟩ := loadFrom_texts 2 hvalid hwritable' hover
  obtain ⟨hsolver, hfaults⟩ := loadFrom_adorned hlines 1 1 (Solver.new settings)
  rw [load, hsolver, hfaults, hdeclared]
  refine ⟨hfault, by rw [load, hdeclared], ?_⟩
  constructor
  · intro h
    rw [h.constraints_eq, List.length_mapIdx, hnone, List.length_nil, Nat.zero_add] at hcount
    simpa using List.countP_eq_length.1 hcount.symm
  · intro hbare
    obtain ⟨hnamesEq, hconstraintsEq⟩ := loadFrom_texts_of_named 2 (hvars ▸ hnodup) hvalid hwritable' hover hbare
    rw [hvars] at hnamesEq hconstraintsEq
    refine ⟨hnamesEq, ?_, ?_⟩
    · intro i name hi
      obtain ⟨hlt, rfl⟩ := List.getElem?_eq_some_iff.1 hi
      have hindex : Variables.latest names[i] 0 names = some (0 + names.idxOf names[i]) :=
        Variables.latest_of_nodup hnodup (List.getElem_mem hlt)
      rw [hnodup.idxOf_getElem, Nat.zero_add] at hindex
      rw [Variables.index?, hnamesEq]
      exact hindex
    · rw [hconstraintsEq, hnone]
      simp

/-- two constraints over `x` and `y` -/
def mixed : List Statement := [⟨[(-2, "x"), (1/3, "y")], .le, 5/2⟩, ⟨[(1, "y"), (-1, "x")], .eq, -1⟩]

/-- the file of the two constraints, with comments and white space -/
def mixedLines : List String :=
  ["# two variables", "\tvar x y", "", "-2*x + 1/3*y <= 5/2  # an upper bound", " y - x = -1 "]

theorem write_mixed : write ["x", "y"] mixed = ["var x y", "-2*x + 1/3*y <= 5/2", "y - x = -1"] := by decide +kernel

theorem mixed_adorned : Adorned (write ["x", "y"] mixed) mixedLines := by
  have hspaces : Blanks [' ', ' '] := by decide
  rw [write_mixed]
  exact .insert blanks_nil (.inr ⟨" two variables".toList, rfl⟩) (by decide +kernel) <|
    .keep (by decide : Blanks ['\t']) blanks_nil (.inl rfl) (by decide +kernel) <|
    .insert blanks_nil (.inl rfl) (by decide +kernel) <|
    .keep blanks_nil hspaces (.inr ⟨" an upper bound".toList, rfl⟩) (by decide +kernel) <|
    .keep (by decide : Blanks [' ']) (by decide : Blanks [' ']) (.inl rfl) (by decide +kernel) .nil

theorem mixed_is_restored : (∀ st ∈ mixed, st.Writable DigitLimit.usual) ∧
    Adorned (write ["x", "y"] mixed) mixedLines ∧
    (load { digitLimit := .usual } mixedLines).fault = none ∧
    Restored ["x", "y"] mixed (load { digitLimit := .usual } mixedLines).solver := by
  have hwritable : ∀ st ∈ mixed, st.Writable DigitLimit.usual := by decide +kernel
  obtain ⟨hfault, -, hiff⟩ := @restored_iff { digitLimit := .usual } _ _ _ (by decide) (by decide) (by decide +kernel)
    (by decide +kernel) hwritable mixed_adorned
  exact ⟨hwritable, mixed_adorned, hfault, hiff.2 (by decide +kernel)⟩

def bare : Statement := ⟨[(1, "var")], .le, 3⟩

/-- A variable may be named `var`. The line of `bare` is then taken for a declaration: it is loaded without a fault, and
what remains of it are two variables without a use. -/
theorem bare_is_lost : isName "var".toList = true ∧ write ["var"] [bare] = ["var var", "var <= 3"] ∧
    (load {} (write ["var"] [bare])).fault = none ∧
    (load {} (write ["var"] [bare])).solver.vars.names = ["var", "<=", "3"] ∧
    ¬ Restored ["var"] [bare] (load {} (write ["var"] [bare])).solver := by
  have hlost : (load {} (write ["var"] [bare])).solver.constraints = [] := by decide +kernel
  refine ⟨by decide, by decide +kernel, by decide +kernel, by decide +kernel, fun h => ?_⟩
  have hconstraints := h.constraints_eq
  rw [hlost] at hconstraints
  cases hconstraints

end ProblemFile

end Halfspace
