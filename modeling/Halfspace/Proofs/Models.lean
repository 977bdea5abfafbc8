/-
Which variables a model names.

Told for the first time, a model names every variable, with zero for those without a column in the solved problem. It is
then remembered until a constraint is accepted, and told again as it was. Variables that were added in between have no
value in it, although they should be zero like all others that no constraint uses.
- `Leaves`: what solving leaves alone, and which problem it leaves solved;
- `follows_remembers`, `Later.remembers`: one call, and any calls, remember what was told or accept a constraint;
- `Recollects.of_reachable`: what is remembered was told before, and is zero where no constraint uses the variable;
- `model_complete_iff`: a model names all variables unless one was added after it was told.
-/
import Halfspace.Proofs.Additions
import Halfspace.Proofs.Registrations

namespace Halfspace

namespace Solver

open Assembly

variable {s s' t u : Solver} {settings : Settings} {solution : Solution} {values : List Rat}

/-! ## Columns of variables -/

def column? (s : Solver) (solution : Solution) (x : Nat) : Option Nat :=
  (s.varSides[x]?).bind (columnOf? solution.assembly.sides)

theorem Registered.column?_eq_none_iff (h : Registered s) (hsides : solution.assembly.sides = usedSides s.store s.vars)
    {x : Nat} (hx : x < s.vars.count) : s.column? solution x = none ↔ s.vars.isActive x = false := by
  obtain ⟨i, hi, hside⟩ := h.varSide x hx
  have hlt : i < s.store.size := (List.getElem?_eq_some_iff.1 hside).1
  have hused : i ∈ usedSides s.store s.vars ↔ s.vars.isActive x = true := by
    rw [mem_usedSides, List.getD_eq_getElem?_getD, hside]
    simp [hlt, isUsed, LinearForm.soleVar?]
  have habsent : columnOf? (usedSides s.store s.vars) i = none ↔ i ∉ usedSides s.store s.vars := by
    simp [columnOf?, List.forall_mem_ne']
  unfold column?
  rw [hi, hsides, Option.bind_some, habsent, hused, Bool.not_eq_true]

theorem valuesIn_of_column?_eq_none {x : Nat} {q : Rat} (hcolumn : s.column? solution x = none)
    (hq : (s.valuesIn solution)[x]? = some q) : q = 0 := by
  rw [valuesIn, List.getElem?_map] at hq
  obtain ⟨i, hi, rfl⟩ := Option.map_eq_some_iff.1 hq
  rw [column?, hi, Option.bind_some] at hcolumn
  simp only [sideValue, hcolumn]

/-! ## What solving leaves alone -/

/-- what solving leaves alone; the problem that it leaves solved is that of the sides in use -/
structure Leaves (s s' : Solver) : Prop where
  vars : s'.vars = s.vars
  store : s'.store = s.store
  constraints : s'.constraints = s.constraints
  model : s'.model = s.model
  solved : ∀ solution, s'.solution = some solution →
    s.solution = some solution ∨ solution.assembly.sides = usedSides s.store s.vars

theorem Leaves.refl (s : Solver) : Leaves s s := ⟨rfl, rfl, rfl, rfl, fun _ => Or.inl⟩

theorem Leaves.trans (h : Leaves s t) (h' : Leaves t u) : Leaves s u where
  vars := h'.vars.trans h.vars
  store := h'.store.trans h.store
  constraints := h'.constraints.trans h.constraints
  model := h'.model.trans h.model
  solved := by
    intro solution hsolution
    rcases h'.solved solution hsolution with hbefore | hsides
    · exact h.solved solution hbefore
    · rw [h.store, h.vars] at hsides
      exact Or.inr hsides

theorem leaves_settle (s : Solver) (evidence : Evidence) : Leaves s (s.settle evidence).solver := by
  unfold settle
  split_ifs
  · exact .refl s
  · exact ⟨rfl, rfl, rfl, rfl, fun _ => Or.inl⟩

theorem leaves_conclude (s : Solver) (solution : Solution) : Leaves s (s.conclude solution).solver := by
  unfold conclude
  cases solution.run.outcome with
  | infeasible =>
    simp only
    split
    · exact leaves_settle s _
    · exact .refl s
  | _ => exact ⟨rfl, rfl, rfl, rfl, fun _ => Or.inl⟩

theorem leaves_solveOn (s : Solver) (resting : Resting) : Leaves s (s.solveOn resting).solver := by
  unfold solveOn
  cases hrun : s.exactRun resting with
  | error fault => exact .refl s
  | ok solution =>
    have hkept : Leaves s { s with solution := some solution, pivots := s.pivots + solution.run.pivots } := by
      refine ⟨rfl, rfl, rfl, rfl, fun solution' hsolution => Or.inr ?_⟩
      rw [← Option.some.inj hsolution]
      exact exactRun_sides hrun
    exact hkept.trans (leaves_conclude _ solution)

theorem leaves_solveClash (s : Solver) (clash : Clash) : Leaves s (s.solveClash clash).solver := by
  unfold solveClash
  cases s.clashEvidence clash with
  | error fault => exact .refl s
  | ok evidence => exact leaves_settle s evidence

theorem leaves_solvePasses (s : Solver) (pass : Pass) : Leaves s (s.solvePasses pass).solver := by
  unfold solvePasses
  cases pass s with
  | error fault => exact .refl s
  | ok hint =>
    have hcounted : Leaves s { s with pivots := s.pivots + hint.pivots } := ⟨rfl, rfl, rfl, rfl, fun _ => Or.inl⟩
    exact hcounted.trans (leaves_solveOn _ hint.resting)

theorem Leaves.completed {e : Effect} (h : Leaves s e.solver) : Leaves s e.completed.solver := by
  unfold Effect.completed
  split_ifs
  · exact ⟨h.vars, h.store, h.constraints, h.model, h.solved⟩
  · exact h

theorem leaves_solveBy (s : Solver) (pass : Pass) : Leaves s (s.solveBy pass).solver := by
  unfold solveBy
  split_ifs
  · exact .refl s
  · cases s.clash with
    | some clash => exact (leaves_solveClash s clash).completed
    | none => exact (leaves_solvePasses s pass).completed

theorem leaves_hint (s : Solver) (pass : Pass) : Leaves s (s.after (.hint pass)) := by
  obtain ⟨pivots, hs'⟩ := s.exists_after_hint pass
  rw [hs']
  exact ⟨rfl, rfl, rfl, rfl, fun _ => Or.inl⟩

/-! ## Models that are remembered -/

/-- `t` has the constraints of `s`, and remembers the model that `s` does -/
structure Remembers (s t : Solver) : Prop where
  constraints : t.constraints = s.constraints
  model : ∀ values, s.model = some values → t.model = some values

theorem Remembers.refl (s : Solver) : Remembers s s := ⟨rfl, fun _ => id⟩

theorem Remembers.trans (h : Remembers s t) (h' : Remembers t u) : Remembers s u :=
  ⟨h'.constraints.trans h.constraints, fun values hvalues => h'.model values (h.model values hvalues)⟩

theorem Leaves.remembers (h : Leaves s s') : Remembers s s' :=
  ⟨h.constraints, fun _ hvalues => h.model.trans hvalues⟩

theorem tellModel_remembered (htold : s.tellModel = .ok (s', values)) :
    (∀ told, s.model = some told → values = told) ∧ s'.model = some values := by
  obtain ⟨hverdict, hvalues, rfl⟩ := tellModel_ok htold
  refine ⟨fun told hmodel => ?_, rfl⟩
  simp only [modelValues, satisfying?, hverdict, if_pos, hmodel, Option.getD_some] at hvalues
  split at hvalues
  · exact (Except.ok.inj hvalues).symm
  · cases hvalues

/-- **One call** remembers what was told, or accepts one more constraint and forgets it. -/
theorem follows_remembers (h : Follows s s') :
    Remembers s s' ∨ s.constraints.length < s'.constraints.length ∧ s'.model = none := by
  cases h with
  | same => exact Or.inl (.refl s)
  | addVar name => exact Or.inl ⟨rfl, fun _ => id⟩
  | addConstraint accepted =>
    right
    constructor
    · obtain ⟨form, rel, q, -, rfl⟩ := addConstraint_ok accepted
      simp [constraints_register]
    · obtain ⟨s'', rfl⟩ := addConstraint_eq_forget accepted
      rfl
  | solve pass => exact Or.inl (leaves_solveBy s pass).remembers
  | counted pivots => exact Or.inl ⟨rfl, fun _ => id⟩
  | tellModel told =>
    obtain ⟨hsame, hmodel⟩ := tellModel_remembered told
    obtain ⟨-, -, rfl⟩ := tellModel_ok told
    exact Or.inl ⟨rfl, fun values hvalues => (hsame values hvalues) ▸ hmodel⟩

theorem count_le_of_follows (h : Follows s s') : s.vars.count ≤ s'.vars.count := by
  cases h with
  | same => exact le_rfl
  | addVar name => simp [addVar, Variables.add, Variables.count]
  | addConstraint accepted =>
    obtain ⟨form, rel, q, -, rfl⟩ := addConstraint_ok accepted
    exact (count_register s form rel q).ge
  | solve pass => exact (congrArg Variables.count (leaves_solveBy s pass).vars).ge
  | counted pivots => exact le_rfl
  | tellModel told =>
    obtain ⟨-, -, rfl⟩ := tellModel_ok told
    exact le_rfl

/-! ## Later states -/

/-- the states that a solver can come to: after any calls, and exact passes asked for directly -/
inductive Later (s : Solver) : Solver → Prop where
  | same : Later s s
  | call {t : Solver} (c : Call) (h : Later s t) : Later s (t.after c)
  | exactPass {t : Solver} (resting : Resting) (h : Later s t) : Later s (t.solveOn resting).solver

theorem Later.trans (h : Later s t) (h' : Later t u) : Later s u := by
  induction h' with
  | same => exact h
  | call c _ ih => exact .call c ih
  | exactPass resting _ ih => exact .exactPass resting ih

/-- **Any calls.** Nothing is taken back. -/
theorem Later.grows (h : Later s t) : s.constraints.length ≤ t.constraints.length ∧ s.vars.count ≤ t.vars.count := by
  induction h with
  | same => exact ⟨le_rfl, le_rfl⟩
  | @call t c _ ih =>
    have hfollows := follows_after t c
    refine ⟨ih.1.trans ?_, ih.2.trans (count_le_of_follows hfollows)⟩
    rcases follows_remembers hfollows with hsame | ⟨hmore, -⟩
    · exact (congrArg List.length hsame.constraints).ge
    · exact hmore.le
  | @exactPass t resting _ ih =>
    have hleaves := leaves_solveOn t resting
    exact ⟨ih.1.trans (congrArg List.length hleaves.constraints).ge,
      ih.2.trans (congrArg Variables.count hleaves.vars).ge⟩

/-- **Any calls** remember what was told, unless a constraint was accepted. -/
theorem Later.remembers (h : Later s t) (hlength : t.constraints.length = s.constraints.length) : Remembers s t := by
  induction h with
  | same => exact .refl s
  | @call t c hlater ih =>
    rcases follows_remembers (follows_after t c) with hstep | ⟨hmore, -⟩
    · rw [hstep.constraints] at hlength
      exact (ih hlength).trans hstep
    · -- constraints are never taken back
      have hgrows := hlater.grows.1
      omega
  | @exactPass t resting _ ih =>
    have hleaves := leaves_solveOn t resting
    rw [hleaves.constraints] at hlength
    exact (ih hlength).trans hleaves.remembers

/-! ## Where a model comes from -/

/-- the values were told in state `t`, and no constraint was accepted since -/
structure ToldIn (settings : Settings) (s : Solver) (values : List Rat) (t : Solver) : Prop where
  reachable : Reachable settings t
  tells : ∃ t', t.tellModel = .ok (t', values) ∧ Later t' s
  constraints : s.constraints = t.constraints

theorem ToldIn.later (h : ToldIn settings s values t) (hlater : Later s s') (hsame : s'.constraints = s.constraints) :
    ToldIn settings s' values t := by
  obtain ⟨t', htold, hbefore⟩ := h.tells
  exact ⟨h.reachable, ⟨t', htold, hbefore.trans hlater⟩, hsame.trans h.constraints⟩

theorem ToldIn.remembered (h : ToldIn settings s values t) : s.model = some values := by
  obtain ⟨t', htold, hlater⟩ := h.tells
  have hlength : s.constraints.length = t'.constraints.length := by
    obtain ⟨-, -, rfl⟩ := tellModel_ok htold
    rw [h.constraints]
  exact (hlater.remembers hlength).model values (tellModel_remembered htold).2

theorem ToldIn.count_le (h : ToldIn settings s values t) : t.vars.count ≤ s.vars.count := by
  obtain ⟨t', htold, hlater⟩ := h.tells
  obtain ⟨-, -, rfl⟩ := tellModel_ok htold
  exact hlater.grows.2

/-- what a state holds of its solution, and of a model told before -/
structure Recollects (settings : Settings) (s : Solver) : Prop where
  solved : ∀ solution, s.solution = some solution → solution.assembly.sides = usedSides s.store s.vars
  zero : ∀ values, s.model = some values → ∀ (x : Nat) q, values[x]? = some q → s.vars.isActive x = false → q = 0
  told : ∀ values, s.model = some values → ∃ t, ToldIn settings s values t ∧ values.length = t.vars.count

namespace Recollects

theorem of_forget (s : Solver) : Recollects settings s.forget := ⟨nofun, nofun, nofun⟩

theorem of_leaves (h : Recollects settings s) (hleaves : Leaves s s') (hlater : Later s s') :
    Recollects settings s' where
  solved := by
    intro solution hsolution
    rw [hleaves.store, hleaves.vars]
    rcases hleaves.solved solution hsolution with hbefore | hsides
    · exact h.solved solution hbefore
    · exact hsides
  zero := by
    rw [hleaves.model, hleaves.vars]
    exact h.zero
  told := by
    intro values hvalues
    rw [hleaves.model] at hvalues
    obtain ⟨t, htold, hlength⟩ := h.told values hvalues
    exact ⟨t, htold.later hlater hleaves.constraints, hlength⟩

theorem addVar (h : Recollects settings s) (hs : Registered s) (hsparing : Sparing s) (name : String) :
    Recollects settings (s.addVar name) where
  solved := by
    intro solution hsolution
    exact (h.solved solution hsolution).trans (usedSides_addVar hs hsparing name).symm
  zero := h.zero
  told := by
    intro values hvalues
    obtain ⟨t, htold, hlength⟩ := h.told values hvalues
    exact ⟨t, htold.later (.call (.addVar name) .same) rfl, hlength⟩

/-- values told for the first time are those of the solution -/
theorem told_first (h : Recollects settings s) (hs : Registered s) (hmodel : s.model = none)
    (hvalues : s.modelValues = .ok values) :
    values.length = s.vars.count ∧ ∀ (x : Nat) q, values[x]? = some q → s.vars.isActive x = false → q = 0 := by
  unfold modelValues satisfying? at hvalues
  split_ifs at hvalues with hverdict
  cases hsolution : s.solution with
  | none => simp [hsolution] at hvalues
  | some solution =>
    simp only [hsolution, hmodel, Option.getD_none] at hvalues
    rw [← Except.ok.inj hvalues]
    refine ⟨hs.length_valuesIn solution, fun x q hq hinactive => ?_⟩
    have hx : x < s.vars.count := by
      rw [← hs.length_valuesIn solution]
      exact (List.getElem?_eq_some_iff.1 hq).1
    exact valuesIn_of_column?_eq_none ((hs.column?_eq_none_iff (h.solved solution hsolution) hx).2 hinactive) hq

theorem tellModel (h : Recollects settings s) (hs : Registered s) (hreachable : Reachable settings s)
    (htold : s.tellModel = .ok (s', values)) : Recollects settings s' := by
  obtain ⟨-, hvalues, rfl⟩ := tellModel_ok htold
  cases hmodel : s.model with
  | none =>
    obtain ⟨hlength, hzero⟩ := h.told_first hs hmodel hvalues
    refine ⟨h.solved, fun told hremembered => ?_, fun told hremembered => ?_⟩
    · rw [← Option.some.inj hremembered]
      exact hzero
    · rw [← Option.some.inj hremembered]
      exact ⟨s, ⟨hreachable, ⟨_, htold, .same⟩, rfl⟩, hlength⟩
  | some before =>
    -- the state stays as it was
    rw [(tellModel_remembered htold).1 before hmodel, ← hmodel]
    exact h

/-- **One call.** -/
theorem call (h : Recollects settings s) (hs : Registered s) (hsparing : Sparing s) (hreachable : Reachable settings s)
    (c : Call) : Recollects settings (s.after c) := by
  cases c with
  | addVar name => exact h.addVar hs hsparing name
  | addConstraint terms relation rhs =>
    simp only [after]
    split
    · rename_i s' hs'
      obtain ⟨s'', rfl⟩ := addConstraint_eq_forget hs'
      exact of_forget s''
    · exact h
  | solve pass => exact h.of_leaves (leaves_solveBy s pass) (.call (.solve pass) .same)
  | hint pass => exact h.of_leaves (leaves_hint s pass) (.call (.hint pass) .same)
  | tellModel =>
    simp only [after]
    split
    · rename_i s' values htold
      exact h.tellModel hs hreachable htold
    · exact h
  | inspect => exact h

/-- **Any calls and exact passes.** -/
theorem of_reachable (h : Reachable settings s) : Recollects settings s := by
  induction h with
  | new => exact ⟨nofun, nofun, nofun⟩
  | @call s c hreachable ih =>
    exact ih.call (Rightful.of_reachable hreachable).registered (Sparing.of_reachable hreachable) hreachable c
  | @exactPass s resting _ ih => exact ih.of_leaves (leaves_solveOn s resting) (.exactPass resting .same)

end Recollects

/-! ## Complete models -/

/-- values of exactly the variables of a state, zero for those without a column in the solved problem -/
structure Complete (s : Solver) (solution : Solution) (values : List Rat) : Prop where
  named : ∀ x : Nat, (∃ q, values[x]? = some q) ↔ x < s.vars.count
  zero : ∀ x : Nat, x < s.vars.count → s.column? solution x = none → values[x]? = some 0

/-- the number of values decides, where those without a column are zero -/
theorem complete_iff (hzero : ∀ (x : Nat) q, values[x]? = some q → s.column? solution x = none → q = 0) :
    Complete s solution values ↔ values.length = s.vars.count := by
  have hvalue : ∀ x : Nat, (∃ q, values[x]? = some q) ↔ x < values.length := by
    intro x
    simp [List.getElem?_eq_some_iff]
  constructor
  · intro h
    have hsame : ∀ x : Nat, x < values.length ↔ x < s.vars.count := fun x => (hvalue x).symm.trans (h.named x)
    have hvalues := hsame values.length
    have hcount := hsame s.vars.count
    omega
  · intro hlength
    refine ⟨fun x => hlength ▸ hvalue x, fun x hx hcolumn => ?_⟩
    obtain ⟨q, hq⟩ := (hvalue x).2 (hlength ▸ hx)
    rw [hq, hzero x q hq hcolumn]

/-- a variable was added after a model was told, and no constraint was accepted since -/
def Outgrown (settings : Settings) (s : Solver) : Prop :=
  ∃ values t, ToldIn settings s values t ∧ t.vars.count < s.vars.count

theorem reachable_tellModel (h : Reachable settings s) (htold : s.tellModel = .ok (s', values)) :
    Reachable settings s' := by
  have hafter : s.after .tellModel = s' := by simp only [after, htold]
  exact hafter ▸ .call .tellModel h

theorem length_le_of_tells (h : Reachable settings s) (htold : s.tellModel = .ok (s', values)) :
    values.length ≤ s.vars.count := by
  have hrecollects := Recollects.of_reachable (reachable_tellModel h htold)
  obtain ⟨t, htoldin, hlength⟩ := hrecollects.told values (tellModel_remembered htold).2
  obtain ⟨-, -, rfl⟩ := tellModel_ok htold
  exact hlength.trans_le htoldin.count_le

/-- a model names as many variables as there are, unless it is outgrown -/
theorem length_eq_iff (h : Reachable settings s) (htold : s.tellModel = .ok (s', values)) :
    values.length = s.vars.count ↔ ¬Outgrown settings s := by
  have hsame := (tellModel_remembered htold).1
  constructor
  · rintro hlength ⟨told, t, htoldin, hless⟩
    obtain ⟨t', ht', -⟩ := htoldin.tells
    have hle := length_le_of_tells htoldin.reachable ht'
    rw [hsame told htoldin.remembered] at hlength
    omega
  · intro hfits
    have hrecollects := Recollects.of_reachable h
    cases hmodel : s.model with
    | none =>
      exact (hrecollects.told_first (Rightful.of_reachable h).registered hmodel (tellModel_ok htold).2.1).1
    | some told =>
      obtain ⟨t, htoldin, hlength⟩ := hrecollects.told told hmodel
      rw [hsame told hmodel, hlength]
      apply le_antisymm htoldin.count_le
      by_contra hless
      exact hfits ⟨told, t, htoldin, not_le.1 hless⟩

/-- **Models.** A satisfiable state tells a model: the one that was told before, unless a constraint was accepted since.
It names variables only, and those of them that have no column in the solved problem are zero. It names them all unless
one was added after the model was told. -/
theorem model_complete_iff (h : Reachable settings s) (hverdict : s.verdict = .satisfiable) :
    ∃ solution s' values, s.solution = some solution ∧ s.tellModel = .ok (s', values) ∧
      (∀ told t, ToldIn settings s told t → values = told) ∧
      (∀ x q, values[x]? = some q → x < s.vars.count ∧ (s.column? solution x = none → q = 0)) ∧
      (Complete s solution values ↔ ¬Outgrown settings s) := by
  have hright := Rightful.of_reachable h
  obtain ⟨solution, hsolution, -⟩ := hright.satisfiable hverdict
  obtain ⟨values, hvalues, -⟩ := hright.modelValues hverdict
  have htold := tellModel_of_modelValues hvalues
  have hsides := (Recollects.of_reachable h).solved solution hsolution
  have hnamed : ∀ x q, values[x]? = some q → x < s.vars.count ∧ (s.column? solution x = none → q = 0) := by
    intro x q hq
    have hx : x < s.vars.count := (List.getElem?_eq_some_iff.1 hq).1.trans_le (length_le_of_tells h htold)
    refine ⟨hx, fun hcolumn => ?_⟩
    have hinactive := (hright.registered.column?_eq_none_iff hsides hx).1 hcolumn
    exact (Recollects.of_reachable (reachable_tellModel h htold)).zero values rfl x q hq hinactive
  refine ⟨solution, _, values, hsolution, htold, ?_, hnamed, ?_⟩
  · intro told t htoldin
    exact (tellModel_remembered htold).1 told htoldin.remembered
  · rw [← length_eq_iff h htold]
    exact complete_iff fun x q hq => (hnamed x q hq).2

/-- `x ≥ 3` and its model, and then another variable -/
def extended : List Call :=
  [.addVar "x", .addConstraint [(.number 1, .id 0)] ">=" (.number 3), .solve fun _ => .ok {}, .tellModel, .addVar "y"]

/-- the model is told again as it was, without the new variable -/
theorem extended_is_incomplete : Reachable {} ((new {}).runCalls extended) ∧
    ((new {}).runCalls extended).verdict = .satisfiable ∧
    ∃ s' values, ((new {}).runCalls extended).tellModel = .ok (s', values) ∧
      ∀ solution, ¬Complete ((new {}).runCalls extended) solution values := by
  refine ⟨reachable_runCalls {} extended, by decide +kernel, ?_⟩
  have hvalues : ((new {}).runCalls extended).modelValues = .ok [3] := by decide +kernel
  refine ⟨_, _, tellModel_of_modelValues hvalues, fun solution hcomplete => ?_⟩
  obtain ⟨q, hq⟩ := (hcomplete.named 1).2 (by decide +kernel)
  cases hq

/-- another constraint, `y < 2`, and after it a third variable -/
def renewed : List Call :=
  extended ++ [.addConstraint [(.number 1, .id 1)] "<" (.number 2), .solve fun _ => .ok {}, .addVar "z"]

/-- the model is told anew, with a value for all three variables -/
theorem renewed_is_complete : ((new {}).runCalls renewed).verdict = .satisfiable ∧
    ∃ solution s' values, ((new {}).runCalls renewed).solution = some solution ∧
      ((new {}).runCalls renewed).tellModel = .ok (s', values) ∧
      Complete ((new {}).runCalls renewed) solution values := by
  have hverdict : ((new {}).runCalls renewed).verdict = .satisfiable := by decide +kernel
  obtain ⟨solution, s', values, hsolution, htold, -, -, hcomplete⟩ :=
    model_complete_iff (reachable_runCalls {} renewed) hverdict
  refine ⟨hverdict, solution, s', values, hsolution, htold, hcomplete.2 ?_⟩
  rintro ⟨told, t, htoldin, -⟩
  have hforgotten : ((new {}).runCalls renewed).model = none := by decide +kernel
  rw [htoldin.remembered] at hforgotten
  cases hforgotten

end Solver

end Halfspace
