/-
Evidence has nothing to spare.

The constraints that evidence names contradict one another, but whichever of them is left out, the others hold together
under some assignment: evidence is an irreducible core. The reason is the same for both kinds of evidence that combine
sides. As soon as one weighted side is left out, the sides of the others may have any values (`Free`), and for each
constraint there is a value of its side at which it holds. For a row of the engine this is because the columns outside
the basis are free, and for an empty interval because a side can have any value. A false constraint whose coefficients
cancel stands alone.
- `isCore_of_free`: terms that stand for free sides are an irreducible core;
- `Cored.of_reachable`: whatever was called before, evidence of an unsatisfiable state is one;
- `evidence_isCore`: what is told of an unsatisfiable state.
-/
import Halfspace.Proofs.Answers
import Halfspace.Proofs.Engine.Outcomes

namespace Halfspace

open LinearForm Refutation Simplex

/-! ## Cores -/

/-- evidence that names no constraint twice, and from which none can be left out: the others hold together under some
assignment -/
structure Refutation.IsCore (constraints : List Constraint) (evidence : Evidence) : Prop where
  distinct : (evidence.map (·.2)).Nodup
  needed : ∀ e ∈ evidence, ∃ v : Assignment, ∀ e' ∈ evidence, e'.2 ≠ e.2 →
    ∃ c, constraints[e'.2]? = some c ∧ c.holds v = true

theorem Refutation.isCore_singleton (constraints : List Constraint) (e : Rat × Nat) :
    IsCore constraints [e] where
  distinct := List.nodup_singleton _
  needed := by
    intro x hx
    refine ⟨fun _ => 0, fun e' he' hne => ?_⟩
    rw [List.mem_singleton.1 hx, List.mem_singleton.1 he'] at hne
    exact absurd rfl hne

theorem Refutation.ofFalse_eq (c : Constraint) : ∃ k, ofFalse c = [(k, c.id)] := by
  unfold ofFalse
  cases c.relation with
  | le => exact ⟨1, rfl⟩
  | lt => exact ⟨1, rfl⟩
  | ge => exact ⟨-1, rfl⟩
  | gt => exact ⟨-1, rfl⟩
  | eq => exact ⟨_, rfl⟩

/-! ## Values of sides -/

theorem Relation.exists_holds (r : Relation) (b : Rat) : ∃ a, r.holds a b = true := by
  cases r with
  | le => exact ⟨b, by simp [holds]⟩
  | lt => exact ⟨b - 1, by simp [holds]⟩
  | ge => exact ⟨b, by simp [holds]⟩
  | gt => exact ⟨b + 1, by simp [holds]⟩
  | eq => exact ⟨b, by simp [holds]⟩

namespace Solver

variable {s s' : Solver} {settings : Settings} {limit : DigitLimit} {a : Assembly Rat Delta} {es : List (Rat × Nat)}
  {ts : List Term}

theorem Registered.exists_value (h : Registered s) (e : Rat × Nat) :
    ∃ q, ∀ l, (Interval.ofSide s.restated e.2).limitFor e.1 = some l →
      ∃ c, s.constraints[l.witness]? = some c ∧ ∀ v, s.store.valueOf v (some e.2) = q → c.holds v = true := by
  cases hl : (Interval.ofSide s.restated e.2).limitFor e.1 with
  | none => exact ⟨0, nofun⟩
  | some l =>
    obtain ⟨r, c, -, hc, hrestates, hside, -⟩ := h.exists_witness hl
    obtain ⟨q, hq⟩ := r.relation.exists_holds r.rhs
    refine ⟨q, fun l' hl' => ⟨c, Option.some.inj hl' ▸ hc, fun v hv => ?_⟩⟩
    rw [hrestates.holds_iff, hside, hv]
    exact hq

/-! ## Terms that stand for sides -/

/-- weighted sides of which any but one may have any values together -/
def Free (s : Solver) (es : List (Rat × Nat)) : Prop :=
  ∀ e ∈ es, ∀ y : Rat × Nat → Rat, ∃ v : Assignment, ∀ e' ∈ es, e' ≠ e → s.store.valueOf v (some e'.2) = y e'

theorem exists_limit (h : List.Forall₂ (StoodFor s) es ts) {u : Term} (hu : u ∈ collect ts) :
    ∃ e ∈ es, ∃ l, (Interval.ofSide s.restated e.2).limitFor e.1 = some l ∧ u.var = l.witness := by
  obtain ⟨t, ht, hvar⟩ := var_of_mem_collect hu
  obtain ⟨e, he, l, c, hl, hstands⟩ := exists_of_forall₂ h ht
  exact ⟨e, he, l, hl, hvar.trans hstands.var⟩

/-- **Free sides.** Terms that stand for free sides are an irreducible core. -/
theorem isCore_of_free (h : Registered s) (hall : List.Forall₂ (StoodFor s) es ts) (hfree : Free s es) :
    IsCore s.constraints (evidenceOf ts) := by
  constructor
  case distinct =>
    unfold evidenceOf
    rw [List.map_map]
    refine List.pairwise_map.2 ((sorted_collect ts).imp_of_mem fun {t u} ht hu hlt => ?_)
    obtain ⟨-, -, l, -, hl⟩ := exists_limit hall ht
    obtain ⟨-, -, l', -, hl'⟩ := exists_limit hall hu
    show t.var.toNat ≠ u.var.toNat
    omega
  case needed =>
    intro x hx
    obtain ⟨t, ht, rfl⟩ := List.mem_map.1 hx
    obtain ⟨e, he, l, hl, hvar⟩ := exists_limit hall ht
    choose y hy using h.exists_value
    obtain ⟨v, hv⟩ := hfree e he y
    refine ⟨v, fun x' hx' hne => ?_⟩
    obtain ⟨u, hu, rfl⟩ := List.mem_map.1 hx'
    obtain ⟨e', he', l', hl', hvar'⟩ := exists_limit hall hu
    have hother : e' ≠ e := by
      rintro rfl
      rw [Option.some.inj (hl'.symm.trans hl), ← hvar] at hvar'
      exact hne (congrArg Int.toNat hvar')
    obtain ⟨c, hc, hholds⟩ := hy e' l' hl'
    refine ⟨c, ?_, hholds v (hv e' he' hother)⟩
    rw [hvar', Int.toNat_natCast]
    exact hc

/-- the evidence of a row of held sides that are free -/
theorem ofRow_isCore (h : Registered s) (hes : Held s es) (hfree : Free s es) :
    ∃ evidence, ofRow s.intervals s.restated (es.map fun e => (e.1, (e.2 : Int))) limit = .ok evidence ∧
      IsCore s.constraints evidence := by
  obtain ⟨ts, hts, hall⟩ := ofRow_eq h hes
  exact ⟨evidenceOf ts, hts, isCore_of_free h hall hfree⟩

/-! ## Rows of the engine -/

/-- the sides of an irredundant row are free -/
theorem free_sideWeights (ha : Assembled s a) {ws : List (Rat × Int)}
    (hrange : ∀ w ∈ ws, 0 ≤ w.2 ∧ w.2 < a.problem.width) (hirr : Irredundant a.problem ws) :
    Free s (sideWeights a.sides ws) := by
  intro e he y
  obtain ⟨w, hw, rfl⟩ := List.mem_map.1 he
  obtain ⟨x, hx, hvalues⟩ := hirr w hw fun w' => y (w'.1, sideOf a.sides w'.2)
  refine ⟨Assembly.assignmentOf s.store a.sides x, fun e' he' hne => ?_⟩
  obtain ⟨w', hw', rfl⟩ := List.mem_map.1 he'
  have hother : w' ≠ w := fun heq => hne (by rw [heq])
  have hcolumn := (ha.vanishes_iff x).1 hx _ _ (ha.getElem?_sideOf (hrange w' hw'))
  rw [Int.toNat_of_nonneg (hrange w' hw').1, hvalues w' hw' hother] at hcolumn
  exact hcolumn.symm

theorem runEvidence_isCore (h : Registered s) (solution : Solution) (ha : Assembled s solution.assembly)
    {ws : List (Rat × Int)} (hconflict : solution.run.conflict = some ws)
    (hrefutes : Refutes solution.assembly.problem ws) (hirr : Irredundant solution.assembly.problem ws) :
    ∃ evidence, s.runEvidence solution = .ok evidence ∧ IsCore s.constraints evidence := by
  rw [runEvidence_eq ha hconflict hrefutes.in_range]
  exact ofRow_isCore h (held_sideWeights ha hrefutes) (free_sideWeights ha hrefutes.in_range hirr)

/-! ## Contradictions found during registration -/

/-- both ends of a side are free once the other is left out -/
theorem free_conflict (h : Registered s) {i : Nat} (hi : i < s.store.size) : Free s [(1, i), (-1, i)] := by
  intro e he y
  obtain ⟨v, hv⟩ := (h.normal _ (FormStore.getD_mem hi)).exists_eval (y (-e.1, i))
  refine ⟨v, fun e' he' hne => ?_⟩
  have hother : e' = (-e.1, i) := by
    simp only [List.mem_cons, List.not_mem_nil, or_false] at he he'
    rcases he with rfl | rfl <;> rcases he' with rfl | rfl <;> simp at hne ⊢
  rw [hother]
  exact hv

theorem clashEvidence_isCore (h : Registered s) {clash : Clash} (hclash : s.clash = some clash) :
    ∃ evidence, s.clashEvidence clash = .ok evidence ∧ IsCore s.constraints evidence := by
  cases clash with
  | side i =>
    obtain ⟨interval, hi, hempty⟩ := h.clash_sound _ hclash
    have hheld := (held_conflict h hi hempty).1
    have hlt : i < s.store.size := hheld.stored (1, i) List.mem_cons_self
    exact ofRow_isCore h hheld (free_conflict h hlt)
  | constraint id =>
    obtain ⟨c, hc, -⟩ := h.clash_sound _ hclash
    obtain ⟨k, hk⟩ := ofFalse_eq c
    refine ⟨ofFalse c, by simp only [clashEvidence, hc], ?_⟩
    rw [hk]
    exact isCore_singleton _ _

/-! ## Solving -/

/-- an unsatisfiable state holds an irreducible core -/
def Cored (s : Solver) : Prop :=
  s.verdict = .unsatisfiable → ∃ evidence, s.evidence = some evidence ∧ IsCore s.constraints evidence

theorem settle_solver {evidence : Evidence} (hfault : (s.settle evidence).fault = none) :
    (s.settle evidence).solver = { s with evidence := some evidence, verdict := .unsatisfiable } := by
  unfold settle at hfault ⊢
  split_ifs at hfault ⊢
  rfl

/-- an unsatisfiable conclusion keeps the evidence of an infeasible run -/
theorem conclude_unsatisfiable {solution : Solution} (hfault : (s.conclude solution).fault = none)
    (hverdict : (s.conclude solution).solver.verdict = .unsatisfiable) :
    solution.run.outcome = .infeasible ∧ ∃ evidence, s.runEvidence solution = .ok evidence ∧
      (s.conclude solution).solver = { s with evidence := some evidence, verdict := .unsatisfiable } := by
  unfold conclude at hfault hverdict ⊢
  cases hout : solution.run.outcome with
  | infeasible =>
    cases hevidence : s.runEvidence solution with
    | error fault =>
      simp only [hout, hevidence] at hfault
      cases hfault
    | ok evidence =>
      simp only [hout, hevidence] at hfault
      exact ⟨rfl, evidence, rfl, settle_solver hfault⟩
  | _ =>
    simp only [hout] at hverdict
    cases hverdict

namespace Cored

theorem solveOn (h : Registered s) (resting : Resting) : Cored (s.solveOn resting).solver := by
  intro hverdict
  obtain ⟨a, hassemble, ha⟩ := assemble_spec h
  obtain ⟨st, r, hrun, hreports⟩ :=
    run_reports ha.framed (resting.start Arithmetic.exact a.problem) s.settings.pivotLimit
  have hfault := (solveOn_concludes h resting).1
  unfold Solver.solveOn at hfault hverdict ⊢
  rw [exactRun_of_run hassemble hrun] at hfault hverdict ⊢
  obtain ⟨hinfeasible, evidence, hevidence, hsolver⟩ := conclude_unsatisfiable hfault hverdict
  rcases hreports.outcome with ⟨hout, -⟩ | ⟨-, ws, hconflict, hrefutes, hirr⟩ | hout
  · cases hinfeasible.symm.trans hout
  · obtain ⟨evidence', hevidence', hcore⟩ := runEvidence_isCore h ⟨a, r⟩ ha hconflict hrefutes hirr
    cases hevidence.symm.trans hevidence'
    simp only [hsolver]
    exact ⟨evidence, rfl, hcore⟩
  · cases hinfeasible.symm.trans hout

theorem solveClash (h : Registered s) {clash : Clash} (hclash : s.clash = some clash) :
    Cored (s.solveClash clash).solver := by
  intro _
  obtain ⟨evidence, hevidence, hcorrect⟩ := clashEvidence_correct h hclash
  obtain ⟨evidence', hevidence', hcore⟩ := clashEvidence_isCore h hclash
  cases hevidence.symm.trans hevidence'
  simp only [Solver.solveClash, hevidence, settle_of_isCorrect hcorrect]
  exact ⟨evidence, rfl, hcore⟩

theorem completed {e : Effect} (h : Cored e.solver) : Cored e.completed.solver := by
  unfold Effect.completed
  split_ifs
  · exact h
  · exact h

theorem solveBy (hs : Registered s) (h : Cored s) (pass : Pass) : Cored (s.solveBy pass).solver := by
  unfold Solver.solveBy
  split_ifs
  · exact h
  split
  · rename_i clash hclash
    exact completed (solveClash hs hclash)
  · apply completed
    unfold solvePasses
    split
    · exact h
    · have hcounted : ∀ n : Int, Registered { s with pivots := n } := fun n => hs.congr rfl rfl rfl rfl rfl rfl rfl
      exact solveOn (hcounted _) _

/-- **One call.** -/
theorem follows (hs : Registered s) (h : Cored s) (hs' : Follows s s') : Cored s' := by
  cases hs' with
  | same => exact h
  | addVar name => exact h
  | addConstraint accepted =>
    obtain ⟨s'', rfl⟩ := addConstraint_eq_forget accepted
    exact nofun
  | solve pass => exact solveBy hs h pass
  | counted pivots => exact h
  | tellModel told =>
    obtain ⟨-, -, rfl⟩ := tellModel_ok told
    exact h

/-- **Any calls and exact passes.** -/
theorem of_reachable (h : Reachable settings s) : Cored s := by
  induction h with
  | new => exact nofun
  | call c hs ih => exact follows (Rightful.of_reachable hs).registered ih (follows_after _ c)
  | exactPass resting hs ih => exact solveOn (Rightful.of_reachable hs).registered resting

end Cored

/-! ## What is told -/

/-- **Irreducible evidence.** An unsatisfiable state tells evidence. Under every assignment a constraint that it names
fails; it names none twice; and whichever constraint is left out, the others hold together under some assignment. -/
theorem evidence_isCore (h : Reachable settings s) (hverdict : s.verdict = .unsatisfiable) :
    ∃ evidence, s.tellEvidence = .ok evidence ∧ IsCore s.constraints evidence ∧
      ∀ v : Assignment, ∃ e ∈ evidence, ∃ c, s.constraints[e.2]? = some c ∧ c.holds v = false := by
  obtain ⟨evidence, hevidence, hcorrect⟩ := (Rightful.of_reachable h).unsatisfiable hverdict
  obtain ⟨evidence', hevidence', hcore⟩ := Cored.of_reachable h hverdict
  cases hevidence.symm.trans hevidence'
  refine ⟨evidence, by simp [tellEvidence, hverdict, hevidence], hcore, fun v => ?_⟩
  obtain ⟨ws, hws, hrefutes⟩ := isCorrect_iff.1 hcorrect
  obtain ⟨w, hw, hfails⟩ := isRefutation_sound hrefutes v
  obtain ⟨e, he, -, hc⟩ := mem_of_weighted? hws hw
  exact ⟨e, he, w.constraint, hc, hfails⟩

/-- `x + y ≤ 4`, then `x < 9`, `2x = 6` and `-y ≤ -2` -/
def cornered : List Call :=
  [.addVar "x", .addVar "y", .addConstraint [(.number 1, .id 0), (.number 1, .id 1)] "<=" (.number 4),
    .addConstraint [(.number 1, .id 0)] "<" (.number 9), .addConstraint [(.number 2, .id 0)] "=" (.number 6),
    .addConstraint [(.number (-1), .id 1)] "<=" (.number (-2))]

/-- `-3x < -9` contradicts `2x = 6` before anything is solved -/
def pinched : List Call :=
  cornered ++ [.addConstraint [(.number (-3), .id 0)] "<" (.number (-9)), .solve fun _ => .ok {}]

/-- an exact pass asked for directly names three of four constraints, and the answer of registration two of five; both
use the equality on one side -/
theorem cornered_isCore :
    (((new {}).runCalls cornered).solveOn Keyed.empty).solver.tellEvidence = .ok [(1, 0), (-1 / 2, 2), (1, 3)] ∧
    IsCore (((new {}).runCalls cornered).solveOn Keyed.empty).solver.constraints [(1, 0), (-1 / 2, 2), (1, 3)] ∧
    ((new {}).runCalls pinched).tellEvidence = .ok [(1 / 2, 2), (1 / 3, 4)] ∧
    IsCore ((new {}).runCalls pinched).constraints [(1 / 2, 2), (1 / 3, 4)] := by
  obtain ⟨evidence, htold, hcore, -⟩ :=
    evidence_isCore (.exactPass Keyed.empty (reachable_runCalls {} cornered)) (by decide +kernel)
  obtain ⟨evidence', htold', hcore', -⟩ := evidence_isCore (reachable_runCalls {} pinched) (by decide +kernel)
  have hevidence : (((new {}).runCalls cornered).solveOn Keyed.empty).solver.tellEvidence =
      .ok [(1, 0), (-1 / 2, 2), (1, 3)] := by decide +kernel
  have hevidence' : ((new {}).runCalls pinched).tellEvidence = .ok [(1 / 2, 2), (1 / 3, 4)] := by decide +kernel
  cases htold.symm.trans hevidence
  cases htold'.symm.trans hevidence'
  exact ⟨hevidence, hcore, hevidence', hcore'⟩

end Solver

end Halfspace
