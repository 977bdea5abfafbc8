/-
Hints never change a verdict.

Runs of the engine on one problem may start anywhere, visit different bases and stop at different columns, but those
that are not stopped by their limit end alike: each is right about all values at once. So it is with solvers that were
given the same registrations, whatever their settings and whatever hints their first passes gave.
Calls heed a contradiction found during registration, whatever the hint is (`Heedful`). An exact pass asked for directly
does not look for one, so that its verdicts are compared where there is none.
- `run_agrees`: two runs of the engine;
- `Rightful.agrees`: two states with the same constraints;
- `verdicts_agree`: runs, histories of calls, and states that were also asked for exact passes directly.
-/
import Halfspace.Proofs.Completeness
import Halfspace.Proofs.Engine.Outcomes
import Halfspace.Proofs.Registrations

namespace Halfspace

namespace Simplex

variable {p : Problem Rat Delta} {s : State Rat Delta} {r : Run Rat Delta}

/-! ## Two runs -/

theorem Reports.within (h : Reports p s r) (hp : p.Regular) (hfeasible : r.outcome = .feasible) {j : Int}
    (hj : 0 ≤ j ∧ j < p.width) : (p.span j).Contains (s.at j) := by
  rcases h.outcome with ⟨-, hbasic⟩ | ⟨hout, -⟩ | hout
  · by_cases hmem : j ∈ s.tableau.keys
    · exact hbasic j hmem
    · exact h.inside hp j hj hmem
  · cases hfeasible.symm.trans hout
  · cases hfeasible.symm.trans hout

theorem Reports.not_infeasible (h : Reports p s r) (hp : p.Regular) (hfeasible : r.outcome = .feasible)
    {s' : State Rat Delta} {r' : Run Rat Delta} (h' : Reports p s' r') : r'.outcome ≠ .infeasible := by
  intro hinfeasible
  rcases h'.outcome with ⟨hout, -⟩ | ⟨-, ws, -, hrefutes, -⟩ | hout
  · cases hinfeasible.symm.trans hout
  · have hrows : p.Vanishes s.at := (h.sound.same Delta s.at).1 h.sound.solves
    exact hrefutes.no_values hrows fun j hj => h.within hp hfeasible hj
  · cases hinfeasible.symm.trans hout

/-- **Two runs** on a regular problem, neither stopped by its limit, have the same outcome. -/
theorem run_agrees (hp : p.Regular) (start start' : Keyed Delta) (limit limit' : Int) :
    ∃ r r', Simplex.run Arithmetic.exact p start limit = .ok r ∧ Simplex.run Arithmetic.exact p start' limit' = .ok r' ∧
      (r.outcome ≠ .iterationLimit → r'.outcome ≠ .iterationLimit → r.outcome = r'.outcome) := by
  obtain ⟨s, r, hr, h⟩ := run_reports hp.toFramed start limit
  obtain ⟨s', r', hr', h'⟩ := run_reports hp.toFramed start' limit'
  refine ⟨r, r', hr, hr', ?_⟩
  intro hconclusive hconclusive'
  rcases h.outcome with ⟨hout, -⟩ | ⟨hout, -⟩ | hout
  · rcases h'.outcome with ⟨hout', -⟩ | ⟨hout', -⟩ | hout'
    · exact hout.trans hout'.symm
    · exact absurd hout' (h.not_infeasible hp hout h')
    · exact absurd hout' hconclusive'
  · rcases h'.outcome with ⟨hout', -⟩ | ⟨hout', -⟩ | hout'
    · exact absurd hout (h'.not_infeasible hp hout' h)
    · exact hout.trans hout'.symm
    · exact absurd hout' hconclusive'
  · exact absurd hout hconclusive

end Simplex

namespace Solver

variable {s s' : Solver} {settings settings' : Settings}

/-! ## Two solvers -/

/-- **Two states** with the same constraints: where one is rightly satisfiable, the other is not unsatisfiable. -/
theorem Rightful.agrees (h : Rightful s) (h' : Rightful s') (hconstraints : s.constraints = s'.constraints)
    (hclash : s.clash = none) : ¬(s.verdict = .satisfiable ∧ s'.verdict = .unsatisfiable) := by
  rintro ⟨hsatisfiable, hunsatisfiable⟩
  obtain ⟨solution, -, hmodel⟩ := h.satisfiable hsatisfiable
  obtain ⟨evidence, -, hcorrect⟩ := h'.unsatisfiable hunsatisfiable
  obtain ⟨c, hc, hfails⟩ := Refutation.exists_fails hcorrect (assignmentOf (s.valuesIn solution))
  rw [hmodel hclash c (hconstraints ▸ hc)] at hfails
  cases hfails

/-- **Verdicts agree.** Two runs of the engine on a regular problem end alike unless a limit stops one of them, whatever
they start from. Two solvers with the same registrations are never satisfiable the one and unsatisfiable the other,
whatever their settings are, whatever hints their first passes give, and whatever else they are asked in between. Nor
are two states with the same constraints, of which exact passes were also asked for directly, from any resting, if no
contradiction was found during registration. -/
theorem verdicts_agree :
    (∀ p : Problem Rat Delta, p.Regular → ∀ (start start' : Keyed Delta) (limit limit' : Int),
      ∃ r r', Simplex.run Arithmetic.exact p start limit = .ok r ∧
        Simplex.run Arithmetic.exact p start' limit' = .ok r' ∧
        (r.outcome ≠ .iterationLimit → r'.outcome ≠ .iterationLimit → r.outcome = r'.outcome)) ∧
    (∀ (settings settings' : Settings) (calls calls' : List Call),
      (new settings).registrations calls = (new settings').registrations calls' →
      ¬(((new settings).runCalls calls).verdict = .satisfiable ∧
        ((new settings').runCalls calls').verdict = .unsatisfiable)) ∧
    (∀ (settings settings' : Settings) (s s' : Solver), Reachable settings s → Reachable settings' s' →
      s.constraints = s'.constraints → s.clash = none →
      ¬(s.verdict = .satisfiable ∧ s'.verdict = .unsatisfiable)) := by
  refine ⟨fun p hp => Simplex.run_agrees hp, ?_, ?_⟩
  · rintro settings settings' calls calls' hsame ⟨hsatisfiable, hunsatisfiable⟩
    have hright := Rightful.of_reachable (reachable_runCalls settings calls)
    have hright' := Rightful.of_reachable (reachable_runCalls settings' calls')
    have hclash := heedful_runCalls settings calls hsatisfiable
    exact hright.agrees hright' (constraints_eq_of_registrations hsame) hclash ⟨hsatisfiable, hunsatisfiable⟩
  · intro settings settings' s s' h h' hconstraints hclash
    exact (Rightful.of_reachable h).agrees (Rightful.of_reachable h') hconstraints hclash

/-- `x + y < 4`, `x - y ≥ 1` and, in between, solved with a hint; a constraint on no variable is refused -/
def swayed (pass : Pass) : List Call :=
  [.addVar "x", .addVar "y", .addConstraint [(.number 1, .id 0), (.number 1, .id 1)] "<" (.number 4), .solve pass,
    .addConstraint [(.number 1, .id 2)] "=" (.number 0), .tellModel,
    .addConstraint [(.number 1, .id 0), (.number (-1), .id 1)] ">=" (.number 1), .solve pass]

/-- a hint about columns that do not exist and bounds that columns do not have -/
def wild : Resting := Keyed.ofList [(0, .upper), (2, .low), (9, .zero)]

/-- a run from out of bounds and one with infinitesimals, calls with a wild hint and none, and a wild exact pass -/
theorem swayed_agrees :
    (∃ r r', Simplex.run Arithmetic.exact (Simplex.braced ⟨-1, 0⟩) (Keyed.ofList [(1, ⟨-5, 0⟩)]) 10 = .ok r ∧
      Simplex.run Arithmetic.exact (Simplex.braced ⟨-1, 0⟩) (Keyed.ofList [(0, ⟨7, 1⟩)]) 20 = .ok r' ∧
      r.outcome = .feasible ∧ r.outcome = r'.outcome) ∧
    ((new {}).runCalls (swayed fun _ => .ok {})).verdict = .satisfiable ∧
    ((new { engine := .simplex, verify := false }).runCalls (swayed fun _ => .ok { resting := wild })).verdict ≠
      .unsatisfiable ∧
    (((new {}).runCalls (swayed fun _ => .ok {})).solveOn wild).solver.verdict ≠ .unsatisfiable := by
  have hverdict : ((new {}).runCalls (swayed fun _ => .ok {})).verdict = .satisfiable := by decide +kernel
  have hreachable : Reachable {} ((new {}).runCalls (swayed fun _ => .ok {})) := reachable_runCalls {} _
  refine ⟨?_, hverdict, ?_, ?_⟩
  · obtain ⟨r, r', hr, hr', halike⟩ := verdicts_agree.1 (Simplex.braced ⟨-1, 0⟩) (Simplex.regular_braced ⟨-1, 0⟩)
      (Keyed.ofList [(1, ⟨-5, 0⟩)]) (Keyed.ofList [(0, ⟨7, 1⟩)]) 10 20
    have hout : (Simplex.run Arithmetic.exact (Simplex.braced ⟨-1, 0⟩) (Keyed.ofList [(1, ⟨-5, 0⟩)]) 10).map
        (·.outcome) = .ok .feasible := by decide +kernel
    have hout' : (Simplex.run Arithmetic.exact (Simplex.braced ⟨-1, 0⟩) (Keyed.ofList [(0, ⟨7, 1⟩)]) 20).map
        (·.outcome) ≠ .ok .iterationLimit := by decide +kernel
    rw [hr] at hout
    rw [hr'] at hout'
    have hfeasible : r.outcome = .feasible := Except.ok.inj hout
    have hconclusive : r'.outcome ≠ .iterationLimit := fun hlimit => hout' (congrArg Except.ok hlimit)
    exact ⟨r, r', hr, hr', hfeasible, halike (by rw [hfeasible]; decide) hconclusive⟩
  · intro hunsatisfiable
    have hsame : (new {}).registrations (swayed fun _ => .ok {}) =
        (new { engine := .simplex, verify := false }).registrations (swayed fun _ => .ok { resting := wild }) :=
      registrations_eq_of_filter rfl rfl
    exact verdicts_agree.2.1 _ _ _ _ hsame ⟨hverdict, hunsatisfiable⟩
  · intro hunsatisfiable
    have hpass := (solveOn_concludes (Rightful.of_reachable hreachable).registered wild).2
    exact verdicts_agree.2.2 _ _ _ _ hreachable (.exactPass wild hreachable) hpass.constraints_eq.symm
      (by decide +kernel) ⟨hverdict, hunsatisfiable⟩

end Solver

end Halfspace
