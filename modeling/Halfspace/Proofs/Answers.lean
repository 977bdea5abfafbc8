/-
Right answers, whatever was called before.

`Rightful s` says that the answers a state holds are right: an unsatisfiable verdict comes with correct evidence, and,
unless a contradiction was found during registration, a satisfiable verdict comes with a solution whose values satisfy
every constraint, as do the values told before. Every call keeps it, whatever hint its first pass gives, and so does an
exact pass asked for directly.
- `reachable_iff`: the reachable states are those after any calls and exact passes;
- `follows_frame`, `perform_frame`: what these leave alone;
- `Rightful.follows`, `Rightful.solveOn`: one call, one exact pass;
- `unsatisfiable_certified`: unsatisfiable verdicts of reachable states are right and certified;
- `satisfiable_told`: satisfiable verdicts after calls are right.
An exact pass asked for directly passes over a contradiction found during registration and may call such a state
satisfiable; calls do not (`Heedful`), so that `satisfiable_told` is about calls alone.
-/
import Halfspace.Proofs.Pipeline.Solving
import Halfspace.Proofs.Registry.Registration

namespace Halfspace

open LinearForm

theorem FormStore.size_place_le (s : FormStore) (form : LinearForm) : (s.place form).store.size ≤ s.size + 1 := by
  unfold place
  dsimp only
  split
  · exact Nat.le_succ _
  · split_ifs
    · exact Nat.le_succ _
    · simp [size]

namespace Solver

variable {s s' : Solver} {settings : Settings}

/-! ## Assignments and new variables -/

theorem assignmentOf_append {values more : List Rat} {x : Int} (hx : x < values.length) :
    assignmentOf (values ++ more) x = assignmentOf values x := by
  unfold assignmentOf
  split_ifs with hneg
  · rfl
  · have hlt : x.toNat < values.length := by omega
    rw [List.getD_eq_getElem?_getD, List.getD_eq_getElem?_getD, List.getElem?_append_left hlt]

theorem Registered.length_valuesIn (h : Registered s) (solution : Solution) :
    (s.valuesIn solution).length = s.vars.count := by
  rw [valuesIn, List.length_map, h.varSides_length]

theorem valuesIn_addVar (s : Solver) (name : String) (solution : Solution) :
    ∃ q, (s.addVar name).valuesIn solution = s.valuesIn solution ++ [q] :=
  ⟨_, by rw [valuesIn, valuesIn, addVar, List.map_append, List.map_singleton]⟩

theorem holds_valuesIn_addVar (h : Registered s) (name : String) (solution : Solution) {c : Constraint}
    (hc : c ∈ s.constraints) :
    c.holds (assignmentOf ((s.addVar name).valuesIn solution)) = c.holds (assignmentOf (s.valuesIn solution)) := by
  obtain ⟨q, hq⟩ := valuesIn_addVar s name solution
  have hlen : (s.valuesIn solution).length = s.vars.count := h.length_valuesIn solution
  have heval : c.terms.eval (assignmentOf ((s.addVar name).valuesIn solution)) =
      c.terms.eval (assignmentOf (s.valuesIn solution)) :=
    eval_congr fun t ht => by rw [hq, assignmentOf_append (hlen ▸ (h.terms_known c hc t ht).2)]
  unfold Constraint.holds
  rw [heval]

/-! ## Calls -/

/-- what a call does to a state, where failures leave it alone -/
inductive Follows (s : Solver) : Solver → Prop where
  | same : Follows s s
  | addVar (name : String) : Follows s (s.addVar name)
  | addConstraint {terms : List (Numeral × VarRef)} {relation : String} {rhs : Numeral} {s' : Solver}
      (accepted : s.addConstraint terms relation rhs = .ok s') : Follows s s'
  | solve (pass : Pass) : Follows s (s.solveBy pass).solver
  | counted (pivots : Int) : Follows s { s with pivots := pivots }
  | tellModel {values : List Rat} {s' : Solver} (told : s.tellModel = .ok (s', values)) : Follows s s'

theorem follows_after (s : Solver) (c : Call) : Follows s (s.after c) := by
  cases c with
  | addVar name => exact .addVar name
  | addConstraint terms relation rhs =>
    simp only [after]
    split
    · rename_i s' hs'
      exact .addConstraint hs'
    · exact .same
  | solve pass => exact .solve pass
  | hint pass =>
    simp only [after]
    split
    · rename_i s' hint hs'
      obtain ⟨found, -, hfound⟩ := bind_eq_ok_iff.1 hs'
      rw [← (Prod.mk.inj (Except.ok.inj hfound)).1]
      exact .counted _
    · exact .same
  | tellModel =>
    simp only [after]
    split
    · rename_i s' values hs'
      exact .tellModel hs'
    · exact .same
  | inspect => exact .same

theorem register_eq_forget (s : Solver) (terms : LinearForm) (relation : Relation) (rhs : Rat) :
    ∃ s' : Solver, s.register terms relation rhs = s'.forget := by
  unfold register
  dsimp only
  split <;> exact ⟨_, rfl⟩

theorem addConstraint_eq_forget {terms : List (Numeral × VarRef)} {relation : String} {rhs : Numeral}
    (h : s.addConstraint terms relation rhs = .ok s') : ∃ s'' : Solver, s' = s''.forget := by
  obtain ⟨form, rel, q, -, rfl⟩ := addConstraint_ok h
  exact register_eq_forget s form rel q

/-- only a satisfiable state tells a model, and it keeps what it told -/
theorem tellModel_ok {values : List Rat} (h : s.tellModel = .ok (s', values)) :
    s.verdict = .satisfiable ∧ s.modelValues = .ok values ∧ s' = { s with model := some values } := by
  obtain ⟨values', hvalues, hs'⟩ := bind_eq_ok_iff.1 h
  obtain ⟨rfl, rfl⟩ := Prod.mk.inj (Except.ok.inj hs').symm
  refine ⟨?_, hvalues, rfl⟩
  by_contra hne
  simp [modelValues, satisfying?, hne] at hvalues

theorem tellModel_of_modelValues {values : List Rat} (h : s.modelValues = .ok values) :
    s.tellModel = .ok ({ s with model := some values }, values) := by
  unfold tellModel
  rw [h]
  rfl

theorem runCalls_concat (s : Solver) (calls : List Call) (c : Call) :
    s.runCalls (calls ++ [c]) = (s.runCalls calls).after c := List.foldl_concat _ _ _ _

theorem runActions_concat (s : Solver) (actions : List Action) (a : Action) :
    s.runActions (actions ++ [a]) = (s.runActions actions).perform a := List.foldl_concat _ _ _ _

theorem runActions_calls (s : Solver) (calls : List Call) : s.runActions (calls.map .call) = s.runCalls calls :=
  List.foldl_map

theorem reachable_iff : Reachable settings s ↔ ∃ actions, s = (new settings).runActions actions := by
  constructor
  · intro h
    induction h with
    | new => exact ⟨[], rfl⟩
    | call c _ ih =>
      obtain ⟨actions, rfl⟩ := ih
      refine ⟨actions ++ [.call c], ?_⟩
      rw [runActions_concat]
      rfl
    | exactPass resting _ ih =>
      obtain ⟨actions, rfl⟩ := ih
      refine ⟨actions ++ [.exactPass resting], ?_⟩
      rw [runActions_concat]
      rfl
  · rintro ⟨actions, rfl⟩
    induction actions using List.reverseRecOn with
    | nil => exact .new
    | append_singleton actions a ih =>
      rw [runActions_concat]
      cases a with
      | call c => exact .call c ih
      | exactPass resting => exact .exactPass resting ih

theorem reachable_runCalls (settings : Settings) (calls : List Call) :
    Reachable settings ((new settings).runCalls calls) :=
  reachable_iff.2 ⟨calls.map .call, (runActions_calls _ calls).symm⟩

/-! ## What calls leave alone -/

theorem Concludes.settings_eq (h : Concludes s s') : s'.settings = s.settings := by cases h <;> rfl

theorem Concludes.store_eq (h : Concludes s s') : s'.store = s.store := by cases h <;> rfl

theorem size_register_le (s : Solver) (terms : LinearForm) (relation : Relation) (rhs : Rat) :
    (s.register terms relation rhs).store.size ≤ s.store.size + 1 := by
  unfold register
  dsimp only
  split
  · exact Nat.le_succ _
  · exact s.store.size_place_le terms

/-- the settings stay, and a call adds at most one left side -/
theorem follows_frame (hs : Registered s) (h : Follows s s') :
    s'.settings = s.settings ∧ s'.store.size ≤ s.store.size + 1 := by
  cases h with
  | same => exact ⟨rfl, Nat.le_succ _⟩
  | addVar name => exact ⟨rfl, s.store.size_place_le _⟩
  | addConstraint accepted =>
    obtain ⟨form, rel, q, -, rfl⟩ := addConstraint_ok accepted
    exact ⟨settings_register s form rel q, size_register_le s form rel q⟩
  | solve pass =>
    refine solveBy_keeps hs pass (motive := fun s' => s'.settings = s.settings ∧ s'.store.size ≤ s.store.size + 1)
      ⟨rfl, Nat.le_succ _⟩ ?_
    intro s' hconcludes _
    exact ⟨hconcludes.settings_eq, (congrArg FormStore.size hconcludes.store_eq).trans_le (Nat.le_succ _)⟩
  | counted pivots => exact ⟨rfl, Nat.le_succ _⟩
  | tellModel told =>
    obtain ⟨-, -, rfl⟩ := tellModel_ok told
    exact ⟨rfl, Nat.le_succ _⟩

theorem perform_frame (hs : Registered s) (a : Action) :
    (s.perform a).settings = s.settings ∧ (s.perform a).store.size ≤ s.store.size + 1 := by
  cases a with
  | call c => exact follows_frame hs (follows_after s c)
  | exactPass resting =>
    have hconcludes := (solveOn_concludes hs resting).2
    exact ⟨hconcludes.settings_eq, (congrArg FormStore.size hconcludes.store_eq).trans_le (Nat.le_succ _)⟩

/-! ## Right answers -/

/-- the answers that a state holds are right -/
structure Rightful (s : Solver) : Prop where
  registered : Registered s
  unsatisfiable : s.verdict = .unsatisfiable →
    ∃ evidence, s.evidence = some evidence ∧ Refutation.isCorrect s.constraints evidence = true
  satisfiable : s.verdict = .satisfiable → ∃ solution, s.solution = some solution ∧
    (s.clash = none → ∀ c ∈ s.constraints, c.holds (assignmentOf (s.valuesIn solution)) = true)
  told : ∀ values, s.model = some values → s.clash = none → ∀ c ∈ s.constraints, c.holds (assignmentOf values) = true

theorem rightful_new (settings : Settings) : Rightful (new settings) where
  registered := registered_new settings
  unsatisfiable := by simp [new]
  satisfiable := by simp [new]
  told := by simp [new]

namespace Rightful

/-- what was counted and what is kept for later calls do not matter -/
theorem of_counts (h : Rightful s) {pivots : Int} {solved : Bool} {settings : Settings} :
    Rightful { s with pivots := pivots, solved := solved, settings := settings } :=
  ⟨h.registered.congr rfl rfl rfl rfl rfl rfl rfl, h.unsatisfiable, h.satisfiable, h.told⟩

/-- where no answer is held, none is wrong -/
theorem of_registered (h : Registered s) (hverdict : s.verdict = .unknown) (hmodel : s.model = none) : Rightful s where
  registered := h
  unsatisfiable := by simp [hverdict]
  satisfiable := by simp [hverdict]
  told := by simp [hmodel]

theorem addVar (h : Rightful s) (name : String) : Rightful (s.addVar name) where
  registered := registered_addVar h.registered name
  unsatisfiable := h.unsatisfiable
  satisfiable hverdict := by
    obtain ⟨solution, hsolution, hmodel⟩ := h.satisfiable hverdict
    exact ⟨solution, hsolution, fun hclash c hc =>
      (holds_valuesIn_addVar h.registered name solution hc).trans (hmodel hclash c hc)⟩
  told := h.told

theorem addConstraint (h : Rightful s) {terms : List (Numeral × VarRef)} {relation : String} {rhs : Numeral}
    (hs' : s.addConstraint terms relation rhs = .ok s') : Rightful s' := by
  have hregistered := registered_addConstraint h.registered hs'
  obtain ⟨s'', rfl⟩ := addConstraint_eq_forget hs'
  exact of_registered hregistered rfl rfl

theorem concludes (h : Rightful s) (hs' : Concludes s s') : Rightful s' := by
  cases hs' with
  | satisfiable model =>
    exact ⟨h.registered.congr rfl rfl rfl rfl rfl rfl rfl, nofun, fun _ => ⟨_, rfl, model⟩, h.told⟩
  | unsatisfiable correct =>
    exact ⟨h.registered.congr rfl rfl rfl rfl rfl rfl rfl, fun _ => ⟨_, rfl, correct⟩, nofun, h.told⟩
  | undecided low =>
    exact ⟨h.registered.congr rfl rfl rfl rfl rfl rfl rfl, nofun, nofun, h.told⟩

theorem solveOn (h : Rightful s) (resting : Resting) : Rightful (s.solveOn resting).solver :=
  h.concludes (solveOn_concludes h.registered resting).2

theorem solveBy (h : Rightful s) (pass : Pass) : Rightful (s.solveBy pass).solver :=
  solveBy_keeps h.registered pass (motive := Rightful) h fun _ hconcludes _ => (h.concludes hconcludes).of_counts

theorem modelValues (h : Rightful s) (hverdict : s.verdict = .satisfiable) : ∃ values, s.modelValues = .ok values ∧
    (s.clash = none → ∀ c ∈ s.constraints, c.holds (assignmentOf values) = true) := by
  obtain ⟨solution, hsolution, hmodel⟩ := h.satisfiable hverdict
  refine ⟨s.model.getD (s.valuesIn solution), ?_, fun hclash => ?_⟩
  · simp [Solver.modelValues, satisfying?, hverdict, hsolution]
  · cases hvalues : s.model with
    | none => exact hmodel hclash
    | some values => exact h.told values hvalues hclash

theorem tellModel (h : Rightful s) {values : List Rat} (hs' : s.tellModel = .ok (s', values)) : Rightful s' := by
  obtain ⟨hverdict, hvalues, rfl⟩ := tellModel_ok hs'
  obtain ⟨values', hvalues', hmodel⟩ := h.modelValues hverdict
  cases hvalues.symm.trans hvalues'
  refine ⟨h.registered.congr rfl rfl rfl rfl rfl rfl rfl, h.unsatisfiable, h.satisfiable, fun told htold => ?_⟩
  cases htold
  exact hmodel

/-- **One call.** -/
theorem follows (h : Rightful s) (hs' : Follows s s') : Rightful s' := by
  cases hs' with
  | same => exact h
  | addVar name => exact h.addVar name
  | addConstraint accepted => exact h.addConstraint accepted
  | solve pass => exact h.solveBy pass
  | counted pivots => exact h.of_counts
  | tellModel told => exact h.tellModel told

/-- **Any calls and exact passes.** -/
theorem of_reachable (h : Reachable settings s) : Rightful s := by
  induction h with
  | new => exact rightful_new settings
  | call c _ ih => exact ih.follows (follows_after _ c)
  | exactPass resting _ ih => exact ih.solveOn resting

end Rightful

/-! ## Contradictions found during registration -/

/-- no state is called satisfiable in spite of a contradiction found during registration -/
def Heedful (s : Solver) : Prop := s.verdict = .satisfiable → s.clash = none

theorem Concludes.clash_eq (h : Concludes s s') : s'.clash = s.clash := by cases h <;> rfl

theorem heedful_solveBy (hs : Registered s) (h : Heedful s) (pass : Pass) : Heedful (s.solveBy pass).solver := by
  refine solveBy_keeps hs pass (motive := Heedful) h ?_
  intro s' hconcludes hclash hverdict
  rcases hclash with hnone | hunsatisfiable
  · exact hconcludes.clash_eq.trans hnone
  · cases hunsatisfiable.symm.trans hverdict

theorem heedful_follows (hs : Registered s) (h : Heedful s) (hs' : Follows s s') : Heedful s' := by
  cases hs' with
  | same => exact h
  | addVar name => exact h
  | addConstraint accepted =>
    obtain ⟨s', hs'⟩ := addConstraint_eq_forget accepted
    rw [hs']
    exact nofun
  | solve pass => exact heedful_solveBy hs h pass
  | counted pivots => exact h
  | tellModel told =>
    obtain ⟨-, -, hs'⟩ := tellModel_ok told
    rw [hs']
    exact h

theorem heedful_runCalls (settings : Settings) (calls : List Call) : Heedful ((new settings).runCalls calls) := by
  induction calls using List.reverseRecOn with
  | nil => exact nofun
  | append_singleton calls c ih =>
    rw [runCalls_concat]
    exact heedful_follows (Rightful.of_reachable (reachable_runCalls settings calls)).registered ih (follows_after _ c)

/-! ## Verdicts -/

/-- **Unsatisfiable verdicts.** No exact pass fails, and solving fails only with its first pass; an unsatisfiable state
tells evidence that passes the check, and no assignment satisfies all of its constraints. -/
theorem unsatisfiable_certified (h : Reachable settings s) :
    (∀ resting, (s.solveOn resting).fault = none) ∧
      (∀ pass fault, (s.solveBy pass).fault = some fault → pass s = .error fault) ∧
      (s.verdict = .unsatisfiable → ∃ evidence, s.evidence = some evidence ∧ s.tellEvidence = .ok evidence ∧
        Refutation.isCorrect s.constraints evidence = true ∧
        ∀ v : Assignment, ∃ c ∈ s.constraints, c.holds v = false) := by
  have hright := Rightful.of_reachable h
  refine ⟨fun resting => (solveOn_concludes hright.registered resting).1, fun pass fault hfault => ?_,
    fun hverdict => ?_⟩
  · rcases solveBy_cases hright.registered pass with ⟨-, hsame⟩ | ⟨_, hpass, hsame, -⟩ | ⟨hnone, -⟩
    · rw [hsame] at hfault
      cases hfault
    · cases hsame.symm.trans hfault
      exact hpass
    · cases hnone.symm.trans hfault
  · obtain ⟨evidence, hevidence, hcorrect⟩ := hright.unsatisfiable hverdict
    refine ⟨evidence, hevidence, by simp [tellEvidence, hverdict, hevidence], hcorrect, fun v => ?_⟩
    obtain ⟨ws, hws, hrefutes⟩ := Refutation.isCorrect_iff.1 hcorrect
    obtain ⟨w, hw, hfails⟩ := Refutation.isRefutation_sound hrefutes v
    obtain ⟨e, -, -, hc⟩ := Refutation.mem_of_weighted? hws hw
    exact ⟨w.constraint, List.mem_of_getElem? hc, hfails⟩

/-- `x + y ≤ 4`, then `-2x < -6` and `y ≥ 1` -/
def crowded : List Call :=
  [.addVar "x", .addVar "y", .addConstraint [(.number 1, .id 0), (.number 1, .id 1)] "<=" (.number 4),
    .solve fun _ => .ok {}, .addConstraint [(.number (-2), .id 0)] "<" (.number (-6)),
    .addConstraint [(.number 1, .id 1)] ">=" (.number 1), .solve fun _ => .ok {}]

/-- evidence is correct even where it is not checked before it is kept -/
theorem crowded_is_refuted : ((new { verify := false }).runCalls crowded).verdict = .unsatisfiable ∧
    ∃ evidence, ((new { verify := false }).runCalls crowded).evidence = some evidence ∧
      ((new { verify := false }).runCalls crowded).tellEvidence = .ok evidence ∧
      Refutation.isCorrect ((new { verify := false }).runCalls crowded).constraints evidence = true ∧
      ∀ v : Assignment, ∃ c ∈ ((new { verify := false }).runCalls crowded).constraints, c.holds v = false :=
  ⟨by decide +kernel, (unsatisfiable_certified (reachable_runCalls _ crowded)).2.2 (by decide +kernel)⟩

/-- **Satisfiable verdicts.** After any calls, a satisfiable state tells values that satisfy every constraint. -/
theorem satisfiable_told (settings : Settings) (calls : List Call)
    (h : ((new settings).runCalls calls).verdict = .satisfiable) :
    ∃ s' values, ((new settings).runCalls calls).tellModel = .ok (s', values) ∧
      ∀ c ∈ ((new settings).runCalls calls).constraints, c.holds (assignmentOf values) = true := by
  obtain ⟨values, hvalues, hmodel⟩ := (Rightful.of_reachable (reachable_runCalls settings calls)).modelValues h
  exact ⟨_, values, tellModel_of_modelValues hvalues, hmodel (heedful_runCalls settings calls h)⟩

/-- `-2x ≤ -6`, then `x + x + 0y < 9` and `y - x = 1/2`; a constraint on no variable is refused, and the last variable
comes after the model was told -/
def roomy : List Call :=
  [.addVar "x", .addVar "y", .addConstraint [(.number (-2), .id 0)] "<=" (.number (-6)), .solve fun _ => .ok {},
    .addConstraint [(.number 1, .id 0), (.number 1, .id 0), (.number 0, .id 1)] "<" (.number 9),
    .addConstraint [(.number 1, .id 7)] "<" (.number 1),
    .addConstraint [(.number 1, .id 1), (.number (-1), .id 0)] "=" (.text "1/2"),
    .solve fun s => s.simplexPass Arithmetic.exact, .tellModel, .addVar "z"]

/-- a weak, a strict and an equal relation hold together, whatever was called in between -/
theorem roomy_is_satisfied : ((new {}).runCalls roomy).verdict = .satisfiable ∧
    ∃ s' values, ((new {}).runCalls roomy).tellModel = .ok (s', values) ∧
      ∀ c ∈ ((new {}).runCalls roomy).constraints, c.holds (assignmentOf values) = true :=
  ⟨by decide +kernel, satisfiable_told {} roomy (by decide +kernel)⟩

end Solver

end Halfspace
