/-
Completeness of the refutation check: constraints that no assignment satisfies have evidence that passes it.

The solver finds the evidence. The constraints are registered in it, with their variables moved up so that they count
from zero, and it is given a limit that suffices. It then calls them satisfiable, and tells an assignment, or
unsatisfiable, and has evidence (`Registered.satisfied_or_refuted`). The check sees weights, relations, right sides and
whether the left sides cancel, none of which change when variables are renamed (`isCorrect_of_resembles`).
- `exists_isCorrect_iff`: there is correct evidence exactly when no assignment satisfies all constraints.
-/
import Halfspace.Proofs.Alignment
import Halfspace.Proofs.Limits

namespace Halfspace

open LinearForm

theorem any_eq_of_forall₂ {α β : Type} {R : α → β → Prop} {p : α → Bool} {q : β → Bool}
    (hR : ∀ a b, R a b → q b = p a) {as : List α} {bs : List β} (h : List.Forall₂ R as bs) : bs.any q = as.any p := by
  induction h with
  | nil => rfl
  | cons hab _ ih => simp only [List.any_cons, hR _ _ hab, ih]

/-! ## Renaming -/

/-- `c'` says of an assignment what `c` says of its image under `f` -/
structure Constraint.Resembles (f : Assignment → Assignment) (c c' : Constraint) : Prop where
  relation : c'.relation = c.relation
  rhs : c'.rhs = c.rhs
  eval : ∀ v, c'.terms.eval v = c.terms.eval (f v)

theorem Constraint.Resembles.holds_eq {f : Assignment → Assignment} {c c' : Constraint} (h : Resembles f c c')
    (v : Assignment) : c'.holds v = c.holds (f v) := by
  rw [Constraint.holds, Constraint.holds, h.relation, h.rhs, h.eval]

namespace Refutation

variable {f : Assignment → Assignment} {ws ws' : List Weighted}

/-- the same weights on constraints that resemble one another -/
def SameWeights (f : Assignment → Assignment) : List Weighted → List Weighted → Prop :=
  List.Forall₂ fun w w' => w'.weight = w.weight ∧ w.constraint.Resembles f w'.constraint

theorem oriented_eq {w w' : Weighted} (h : w'.weight = w.weight ∧ w.constraint.Resembles f w'.constraint) :
    oriented w' = oriented w := by
  unfold oriented
  rw [h.1, h.2.relation]

theorem SameWeights.aggregate_eq (h : SameWeights f ws ws') : aggregate ws' = aggregate ws := by
  have hzero : (ws'.any fun w => w.weight = 0) = ws.any fun w => w.weight = 0 :=
    any_eq_of_forall₂ (fun w w' hw => by rw [hw.1]) h
  have hrelation : ∀ p : Relation → Bool, (ws'.any fun w => p (oriented w)) = ws.any fun w => p (oriented w) :=
    fun p => any_eq_of_forall₂ (fun w w' hw => by rw [oriented_eq hw]) h
  simp only [aggregate, hzero, hrelation]

theorem SameWeights.rightSum_eq (h : SameWeights f ws ws') : rightSum ws' = rightSum ws := by
  induction h with
  | nil => rfl
  | cons hw _ ih => rw [rightSum, rightSum, ih, hw.1, hw.2.rhs]

theorem SameWeights.leftSum_eq (h : SameWeights f ws ws') (v : Assignment) :
    (ws'.map (leftValue v)).sum = (ws.map (leftValue (f v))).sum := by
  induction h with
  | nil => rfl
  | cons hw _ ih => simp only [List.map_cons, List.sum_cons, ih, leftValue, hw.1, hw.2.eval]

theorem SameWeights.isRefutation (hf : Function.Surjective f) (h : SameWeights f ws ws')
    (hrefutes : isRefutation ws' = true) : isRefutation ws = true := by
  have hempty : ws'.isEmpty = ws.isEmpty := by cases h <;> rfl
  have hleft : leftCancels ws' = true → leftCancels ws = true := by
    intro hcancels
    rw [leftCancels_iff] at hcancels ⊢
    intro v
    obtain ⟨u, rfl⟩ := hf v
    rw [← h.leftSum_eq]
    exact hcancels u
  unfold Refutation.isRefutation at hrefutes ⊢
  rw [hempty, h.aggregate_eq] at hrefutes
  rw [Bool.and_eq_true] at hrefutes ⊢
  refine ⟨hrefutes.1, ?_⟩
  cases hr : aggregate ws with
  | none => simp [hr] at hrefutes
  | some r =>
    simp only [hr, Bool.and_eq_true, contradicts, h.rightSum_eq] at hrefutes ⊢
    exact ⟨hleft hrefutes.2.1, hrefutes.2.2⟩

/-- **Renaming.** Evidence against constraints is evidence against those that they resemble. -/
theorem isCorrect_of_resembles (hf : Function.Surjective f) {constraints constraints' : List Constraint}
    (h : List.Forall₂ (Constraint.Resembles f) constraints constraints') {evidence : Evidence}
    (hcorrect : isCorrect constraints' evidence = true) : isCorrect constraints evidence = true := by
  obtain ⟨ws', hws', hrefutes⟩ := isCorrect_iff.1 hcorrect
  have hexists : ∃ ws, weighted? constraints evidence = some ws ∧ SameWeights f ws ws' := by
    simp only [weighted?_eq_some_iff] at hws' ⊢
    clear hcorrect hrefutes
    induction hws' with
    | nil => exact ⟨[], .nil, .nil⟩
    | @cons e w' _ _ hw' _ ih =>
      obtain ⟨ws, hws, hsame⟩ := ih
      obtain ⟨hlt', hc'⟩ := List.getElem?_eq_some_iff.1 hw'.2
      have hlt : e.2 < constraints.length := h.length_eq ▸ hlt'
      have hresembles := h.get hlt hlt'
      refine ⟨⟨e.1, constraints[e.2]⟩ :: ws, .cons ⟨rfl, List.getElem?_eq_getElem hlt⟩ hws, .cons ⟨hw'.1, ?_⟩ hsame⟩
      rw [← hc']
      exact hresembles
  obtain ⟨ws, hws, hsame⟩ := hexists
  exact isCorrect_iff.2 ⟨ws, hws, hsame.isRefutation hf hrefutes⟩

end Refutation

/-! ## The solver decides -/

namespace Solver

variable {s s' : Solver}

theorem Concludes.constraints_eq (h : Concludes s s') : s'.constraints = s.constraints := by cases h <;> rfl

theorem constraints_solveBy (h : Registered s) (pass : Pass) :
    (s.solveBy pass).solver.constraints = s.constraints :=
  solveBy_keeps h pass (motive := fun s' => s'.constraints = s.constraints) rfl fun _ hconcludes _ =>
    hconcludes.constraints_eq

/-- **Two answers.** Registered constraints hold together or have evidence against them: a solver that was not asked
before finds out which, once its limit suffices. -/
theorem Registered.satisfied_or_refuted (h : Registered s) :
    (∃ v, ∀ c ∈ s.constraints, c.holds v = true) ∨
      ∃ evidence, Refutation.isCorrect s.constraints evidence = true := by
  set asked : Solver := s.forget.withLimit (3 ^ s.store.size)
  set told : Solver := (asked.solveBy fun _ => .ok {}).solver
  have hregistered : Registered asked := h.congr rfl rfl rfl rfl rfl rfl rfl
  have hconstraints : told.constraints = s.constraints := constraints_solveBy hregistered _
  have hright : Rightful told := (Rightful.of_registered hregistered rfl rfl).solveBy _
  have hheedful : Heedful told := heedful_solveBy hregistered nofun _
  have hdecided : told.verdict ≠ .unknown := by
    rcases solveBy_decides hregistered nofun le_rfl fun _ => .ok {} with ⟨_, hpass, -⟩ | ⟨-, hverdict⟩
    · cases hpass
    · exact hverdict
  rw [← hconstraints]
  cases hverdict : told.verdict with
  | satisfiable =>
    obtain ⟨solution, -, hmodel⟩ := hright.satisfiable hverdict
    exact Or.inl ⟨_, hmodel (hheedful hverdict)⟩
  | unsatisfiable =>
    obtain ⟨evidence, -, hcorrect⟩ := hright.unsatisfiable hverdict
    exact Or.inr ⟨evidence, hcorrect⟩
  | unknown => exact absurd hverdict hdecided

/-! ## Registering any constraints -/

theorem exists_registered_vars (n : Nat) : ∃ s : Solver, Registered s ∧ s.vars.count = n ∧ s.constraints = [] := by
  induction n with
  | zero => exact ⟨new {}, registered_new {}, rfl, rfl⟩
  | succ n ih =>
    obtain ⟨s, hs, hcount, hnone⟩ := ih
    refine ⟨s.addVar "", registered_addVar hs "", ?_, hnone⟩
    rw [← hcount]
    simp [addVar, Variables.add, Variables.count]

def lifted (m : Int) (form : LinearForm) : LinearForm := form.map fun t => ⟨t.coef, t.var + m⟩

theorem eval_lifted (m : Int) (v : Assignment) (form : LinearForm) :
    (lifted m form).eval v = form.eval fun x => v (x + m) := by
  induction form with
  | nil => rfl
  | cons t rest ih =>
    simp only [lifted, List.map_cons, eval] at ih ⊢
    rw [ih]

/-- constraints whose variables are in range once they are moved up can be registered, one after another -/
theorem exists_registered (constraints : List Constraint) {m : Int} {n : Nat}
    (hrange : ∀ c ∈ constraints, ∀ t ∈ c.terms, 0 ≤ t.var + m ∧ t.var + m < n) :
    ∃ s : Solver, Registered s ∧ s.vars.count = n ∧
      List.Forall₂ (Constraint.Resembles fun v x => v (x + m)) constraints s.constraints := by
  induction constraints using List.reverseRecOn with
  | nil =>
    obtain ⟨s, hs, hcount, hnone⟩ := exists_registered_vars n
    exact ⟨s, hs, hcount, by rw [hnone]; exact .nil⟩
  | append_singleton constraints c ih =>
    obtain ⟨s, hs, hcount, hresembles⟩ := ih fun c' hc' => hrange c' (List.mem_append_left _ hc')
    have hterms : ∀ t ∈ lifted m c.terms, 0 ≤ t.var ∧ t.var < s.vars.count := by
      intro t ht
      obtain ⟨u, hu, rfl⟩ := List.mem_map.1 ht
      rw [hcount]
      exact hrange c (by simp) u hu
    refine ⟨s.register (lifted m c.terms) c.relation c.rhs, registered_register hs _ _ hterms, ?_, ?_⟩
    · rw [count_register, hcount]
    · rw [constraints_register]
      exact List.rel_append hresembles (.cons ⟨rfl, rfl, fun v => eval_lifted m v c.terms⟩ .nil)

theorem exists_range (constraints : List Constraint) :
    ∃ m n : Nat, ∀ c ∈ constraints, ∀ t ∈ c.terms, 0 ≤ t.var + m ∧ t.var + m < n := by
  set sizes : List Nat := constraints.flatMap fun c => c.terms.map fun t => t.var.natAbs
  refine ⟨sizes.sum, 2 * sizes.sum + 1, ?_⟩
  intro c hc t ht
  have hmem : t.var.natAbs ∈ sizes := List.mem_flatMap.2 ⟨c, hc, List.mem_map_of_mem ht⟩
  have hle : t.var.natAbs ≤ sizes.sum := List.single_le_sum (by simp) _ hmem
  omega

end Solver

/-! ## Completeness -/

namespace Refutation

/-- **Completeness.** There is correct evidence against constraints exactly when no assignment satisfies all of them. -/
theorem exists_isCorrect_iff (constraints : List Constraint) :
    (∃ evidence, isCorrect constraints evidence = true) ↔
      ∀ v : Assignment, ∃ c ∈ constraints, c.holds v = false := by
  constructor
  · rintro ⟨evidence, hcorrect⟩
    exact exists_fails hcorrect
  · intro hfails
    obtain ⟨m, n, hrange⟩ := Solver.exists_range constraints
    obtain ⟨s, hs, -, hresembles⟩ := Solver.exists_registered constraints hrange
    have hsurjective : Function.Surjective fun (v : Assignment) (x : Int) => v (x + m) := by
      intro v
      refine ⟨fun x => v (x - m), ?_⟩
      funext x
      simp
    rcases hs.satisfied_or_refuted with ⟨v, hall⟩ | ⟨evidence, hcorrect⟩
    · obtain ⟨c, hc, hfalse⟩ := hfails fun x => v (x + m)
      obtain ⟨c', hc', hsame⟩ := exists_of_forall₂ hresembles.flip hc
      cases hfalse.symm.trans ((hsame.holds_eq v).symm.trans (hall c' hc'))
    · exact ⟨evidence, isCorrect_of_resembles hsurjective hresembles hcorrect⟩

end Refutation

end Halfspace
