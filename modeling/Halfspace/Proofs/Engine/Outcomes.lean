/-
What a run of the exact engine reports.

A run on a framed problem ends in a state, after however many exchanges, and reports its values and its basis. So the
report can be trusted whatever the outcome is, limits included:
- `run_reports`: the state behind the report is sound, with one basic column for each row;
- `infeasible_refuted`: infeasible runs report a row that refutes the problem;
- `run_consistent`: the values satisfy the rows exactly and the columns outside the basis lie within their bounds, and
  after a feasible run all columns do.
-/
import Halfspace.Proofs.Engine.Conflict

namespace Halfspace

open Keyed

namespace Simplex

variable {p : Problem Rat Delta} {s : State Rat Delta} {r : Run Rat Delta}

/-! ## The state behind a report -/

/-- a run ends in a state and reports it -/
structure Reports (p : Problem Rat Delta) (s : State Rat Delta) (r : Run Rat Delta) : Prop where
  sound : Sound p s
  inside : p.Regular → Inside p s
  size : s.tableau.keys.length = p.rows.length
  values : r.values = some s.values
  basis : r.basis = some s.tableau.sortedKeys
  outcome : (r.outcome = .feasible ∧ ∀ k ∈ s.tableau.keys, (p.span k).Contains (s.at k)) ∨
    (r.outcome = .infeasible ∧ ∃ ws, r.conflict = some ws ∧ Refutes p ws ∧ Irredundant p ws) ∨
    r.outcome = .iterationLimit

theorem Ending.basis_eq {made : Int} (hend : Ending p s made r) : r.basis = some s.tableau.sortedKeys := by
  cases hend with
  | feasible => rfl
  | infeasible => rfl

theorem Path.reports {first : State Rat Delta} {es : List (Int × Int)} {limit : Int} (hpath : Path p first es s)
    (hsound : Sound p first) (hsettled : Settled p first)
    (hsize : first.tableau.keys.length = p.rows.length)
    (hend : (es.length < limit.toNat ∧ Ending p s es.length r) ∨
      (es.length = limit.toNat ∧ r = s.stop .iterationLimit limit)) : Reports p s r := by
  have hsound' : Sound p s := hpath.sound hsound
  have hinside' : p.Regular → Inside p s := (hpath.settled hsound hsettled).inside
  have hsize' : s.tableau.keys.length = p.rows.length := (hpath.length_keys hsound).trans hsize
  rcases hend with ⟨-, hend⟩ | ⟨-, hstopped⟩
  · obtain ⟨hvalues, hfeasible | hinfeasible⟩ := hend.outcome_cases hsound'
    · exact ⟨hsound', hinside', hsize', hvalues, hend.basis_eq, Or.inl hfeasible⟩
    · exact ⟨hsound', hinside', hsize', hvalues, hend.basis_eq, Or.inr (Or.inl hinfeasible)⟩
  · subst hstopped
    exact ⟨hsound', hinside', hsize', rfl, rfl, Or.inr (Or.inr rfl)⟩

/-- **Reports.** Every run on a framed problem ends in a sound state, and reports it. -/
theorem run_reports (hp : p.Framed Arithmetic.exact) (start : Keyed Delta) (limit : Int) :
    ∃ s r, Simplex.run Arithmetic.exact p start limit = .ok r ∧ Reports p s r := by
  obtain ⟨first, es, s, r, hr, hsound, hsettled, hsize, hpath, hend⟩ := run_cases hp start limit
  exact ⟨s, r, hr, hpath.reports hsound hsettled hsize hend⟩

/-! ## Infeasible runs -/

/-- **Infeasible runs.** The reported row refutes the problem, from whatever start and within whatever limit. So no
values satisfy all rows and all bounds. -/
theorem infeasible_refuted (hp : p.Framed Arithmetic.exact) (start : Keyed Delta) (limit : Int) :
    ∃ r, Simplex.run Arithmetic.exact p start limit = .ok r ∧
      (r.outcome = .infeasible → ∃ ws, r.conflict = some ws ∧ Refutes p ws ∧
        ¬∃ x : Int → Delta, p.Vanishes x ∧ ∀ j : Int, 0 ≤ j ∧ j < p.width → (p.span j).Contains (x j)) := by
  obtain ⟨s, r, hr, hreports⟩ := run_reports hp start limit
  refine ⟨r, hr, fun hinfeasible => ?_⟩
  rcases hreports.outcome with ⟨hout, -⟩ | ⟨-, ws, hws, hrefutes, -⟩ | hout
  · cases hinfeasible.symm.trans hout
  · refine ⟨ws, hws, hrefutes, ?_⟩
    rintro ⟨x, hrows, hbounds⟩
    exact hrefutes.no_values hrows hbounds
  · cases hinfeasible.symm.trans hout

/-- `x₂ = x₀ + x₁` and `2x₃ = 2x₀ - 2x₁` with `x₂ ≤ 2`, `x₃ ≥ 2` and a low bound for `x₁` -/
def braced (least : Delta) : Problem Rat Delta where
  rows := [⟨[(2, -1), (0, 1), (1, 1)], by decide⟩, ⟨[(3, -2), (0, 2), (1, -2)], by decide⟩]
  basis := [2, 3]
  spans := [{}, { low := some least }, { upper := some ⟨2, 0⟩ }, { low := some ⟨2, 0⟩ }]

theorem regular_braced (least : Delta) : (braced least).Regular where
  paired := rfl
  ranged := by
    show ∀ row ∈ (braced 0).rows, ∀ j ∈ row.keys, 0 ≤ j ∧ j < 4
    decide
  solvable := by simp [braced, get?, valueOf]
  distinct := by
    show (braced 0).basis.Nodup
    decide
  alone := by simp [braced, keys]
  ordered := by simp [braced]

/-- only the strictness of `x₁ > 0` speaks against the problem, and the start is out of bounds -/
theorem braced_is_refuted : ∃ r ws, Simplex.run Arithmetic.exact (braced ⟨0, 1⟩) (ofList [(1, ⟨-5, 0⟩)]) 10 = .ok r ∧
    r.outcome = .infeasible ∧ r.conflict = some ws ∧ Refutes (braced ⟨0, 1⟩) ws := by
  obtain ⟨r, hr, hrefuted⟩ := infeasible_refuted (regular_braced ⟨0, 1⟩).toFramed (ofList [(1, ⟨-5, 0⟩)]) 10
  have hout : (Simplex.run Arithmetic.exact (braced ⟨0, 1⟩) (ofList [(1, ⟨-5, 0⟩)]) 10).map (·.outcome) =
      .ok .infeasible := by decide +kernel
  rw [hr] at hout
  have hinfeasible : r.outcome = .infeasible := Except.ok.inj hout
  obtain ⟨ws, hws, hrefutes, -⟩ := hrefuted hinfeasible
  exact ⟨r, ws, hr, hinfeasible, hws, hrefutes⟩

/-! ## Any runs -/

/-- values and a basis that fit a problem -/
structure Consistent (p : Problem Rat Delta) (values : List Delta) (basis : List Int) : Prop where
  length : values.length = p.width
  /-- every row vanishes -/
  rows : p.Vanishes (look Arithmetic.exact values)
  size : basis.length = p.rows.length
  distinct : basis.Nodup
  in_range : ∀ b ∈ basis, 0 ≤ b ∧ b < p.width
  nonbasic : ∀ j : Int, 0 ≤ j ∧ j < p.width → j ∉ basis → (p.span j).Contains (look Arithmetic.exact values j)

theorem Reports.consistent (h : Reports p s r) (hp : p.Regular) :
    Consistent p s.values s.tableau.sortedKeys where
  length := h.sound.length
  rows := (h.sound.same Delta s.at).1 h.sound.solves
  size := by
    have hperm : s.tableau.sortedKeys.Perm s.tableau.keys := (perm_byKey s.tableau).map _
    rw [hperm.length_eq, h.size]
  distinct := (pairwise_sortedKeys (m := s.tableau)).imp fun hlt => hlt.ne
  in_range b hb := h.sound.within.basic b (mem_sortedKeys.1 hb)
  nonbasic j hj hjn := h.inside hp j hj fun hmem => hjn (mem_sortedKeys.2 hmem)

/-- **Any runs.** From whatever start and within whatever limit, a run on a regular problem does not fail; the values
that it reports satisfy every row, its basis has one column for each row, the columns outside the basis lie within
their bounds, and after a feasible run all columns do. -/
theorem run_consistent (hp : p.Regular) (start : Keyed Delta) (limit : Int) :
    ∃ r values basis, Simplex.run Arithmetic.exact p start limit = .ok r ∧
      r.values = some values ∧ r.basis = some basis ∧ Consistent p values basis ∧
      (r.outcome = .feasible ∨ r.outcome = .infeasible ∨ r.outcome = .iterationLimit) ∧
      (r.outcome = .feasible →
        ∀ j : Int, 0 ≤ j ∧ j < p.width → (p.span j).Contains (look Arithmetic.exact values j)) := by
  obtain ⟨s, r, hr, h⟩ := run_reports hp.toFramed start limit
  refine ⟨r, s.values, s.tableau.sortedKeys, hr, h.values, h.basis, h.consistent hp, ?_, fun hfeasible j hj => ?_⟩
  · rcases h.outcome with ⟨hout, -⟩ | ⟨hout, -⟩ | hout
    · exact Or.inl hout
    · exact Or.inr (Or.inl hout)
    · exact Or.inr (Or.inr hout)
  · rcases h.outcome with ⟨-, hbasic⟩ | ⟨hout, -⟩ | hout
    · by_cases hmem : j ∈ s.tableau.keys
      · exact hbasic j hmem
      · exact h.inside hp j hj hmem
    · cases hfeasible.symm.trans hout
    · cases hfeasible.symm.trans hout

/-- a run that is feasible after an exchange, and one that its limit stops while a column violates its bound -/
theorem braced_is_consistent :
    (∃ values basis, (∃ r, Simplex.run Arithmetic.exact (braced ⟨-1, 0⟩) (ofList [(1, ⟨-5, 0⟩)]) 10 = .ok r ∧
        r.outcome = .feasible) ∧ Consistent (braced ⟨-1, 0⟩) values basis ∧
      ∀ j : Int, 0 ≤ j ∧ j < 4 → ((braced ⟨-1, 0⟩).span j).Contains (look Arithmetic.exact values j)) ∧
    ∃ values basis, (∃ r, Simplex.run Arithmetic.exact (braced ⟨1, 0⟩) (ofList [(0, ⟨9, 0⟩)]) 1 = .ok r ∧
        r.outcome = .iterationLimit) ∧ Consistent (braced ⟨1, 0⟩) values basis := by
  constructor
  · obtain ⟨r, values, basis, hr, -, -, hconsistent, -, hbounds⟩ :=
      run_consistent (regular_braced ⟨-1, 0⟩) (ofList [(1, ⟨-5, 0⟩)]) 10
    have hout : (Simplex.run Arithmetic.exact (braced ⟨-1, 0⟩) (ofList [(1, ⟨-5, 0⟩)]) 10).map (·.outcome) =
        .ok .feasible := by decide +kernel
    rw [hr] at hout
    have hfeasible : r.outcome = .feasible := Except.ok.inj hout
    exact ⟨values, basis, ⟨r, hr, hfeasible⟩, hconsistent, hbounds hfeasible⟩
  · obtain ⟨r, values, basis, hr, -, -, hconsistent, -, -⟩ :=
      run_consistent (regular_braced ⟨1, 0⟩) (ofList [(0, ⟨9, 0⟩)]) 1
    have hout : (Simplex.run Arithmetic.exact (braced ⟨1, 0⟩) (ofList [(0, ⟨9, 0⟩)]) 1).map (·.outcome) =
        .ok .iterationLimit := by decide +kernel
    rw [hr] at hout
    exact ⟨values, basis, ⟨r, hr, Except.ok.inj hout⟩, hconsistent⟩

end Simplex

end Halfspace
