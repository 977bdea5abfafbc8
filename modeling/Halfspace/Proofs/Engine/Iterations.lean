/-
What holds at every iteration of a run, in any arithmetic.

`Reaches A p n s s'` says that `n` exchanges lead from `s` to `s'`. The invariant of single steps holds of every state
that a run passes through, and the report of a run is that of the state which its exchanges lead to. So no iteration of a
run on a framed problem looks for a column that is missing, and where null counts as zero none divides by null:
- `Reaches.steady`: exchanges keep states steady;
- `reaches_of_iterate`: the state behind a report;
- `run_safe`: every run on a framed problem finishes, whatever the operations of its arithmetic yield.
-/
import Halfspace.Proofs.Engine.Safety

namespace Halfspace

open Keyed

namespace Simplex

variable {K V : Type} {A : Arithmetic K V} {p : Problem K V} {s s' : State K V}

/-! ## Exchanges one after another -/

/-- exchanges one after another, counted -/
inductive Reaches (A : Arithmetic K V) (p : Problem K V) : Nat → State K V → State K V → Prop where
  | refl (s : State K V) : Reaches A p 0 s s
  | next {n : Nat} {s s' s'' : State K V} (hstep : step A p s = .ok (.continues s')) (rest : Reaches A p n s' s'') :
      Reaches A p (n + 1) s s''

/-- a step that goes on does so in a steady state -/
theorem Steady.of_continues (h : Steady p s) (hstep : step A p s = .ok (.continues s')) : Steady p s' := by
  have hends := step_steady (A := A) h
  rw [hstep] at hends
  exact hends s' rfl

theorem Reaches.steady {n : Nat} (hreaches : Reaches A p n s s') (h : Steady p s) : Steady p s' := by
  induction hreaches with
  | refl => exact h
  | next hstep _ ih => exact ih (h.of_continues hstep)

/-- where null counts as zero, no step of a steady state fails -/
theorem Steady.exists_next (h : Steady p s) (hA : A.Guarded) : ∃ next, step A p s = .ok next := by
  rcases (step_steady (A := A) h).cases with ⟨next, hnext, -⟩ | ⟨fault, -, -, hunguarded⟩
  · exact ⟨next, hnext⟩
  · exact absurd hA hunguarded

/-! ## The state behind a report -/

/-- the rest of a run reports the state that it reaches, by induction on the exchanges that are left -/
theorem reaches_of_iterate {limit : Int} {remaining made : Nat} (hlimit : made + remaining = limit.toNat) {r : Run K V}
    (hr : iterate A p limit remaining made s = .ok r) :
    ∃ n s', Reaches A p n s s' ∧ made + n = r.pivots.toNat ∧ r.values = some s'.values ∧
      r.basis = some s'.tableau.sortedKeys := by
  induction remaining generalizing s made with
  | zero =>
    cases hr
    exact ⟨0, s, .refl s, hlimit, rfl, rfl⟩
  | succ remaining ih =>
    rw [iterate] at hr
    obtain ⟨next, hstep, hr⟩ := bind_eq_ok_iff.1 hr
    cases next with
    | feasible =>
      cases hr
      exact ⟨0, s, .refl s, rfl, rfl, rfl⟩
    | infeasible conflict side =>
      cases hr
      exact ⟨0, s, .refl s, rfl, rfl, rfl⟩
    | continues s' =>
      obtain ⟨n, t, hreaches, hcount, hreport⟩ := ih (by omega) hr
      exact ⟨n + 1, t, .next hstep hreaches, by omega, hreport⟩

/-! ## Any run -/

/-- **Structural safety.** Where null counts as zero, a run on a framed problem fails from no start and within no limit,
and its report has a value for every column and one basic column for each row. However many exchanges lead to a state,
that state has a value for every column, no basic column occurs in one of its rows, and its next step does not fail; the
report is that of such a state. Nothing else is asked of the arithmetic. -/
theorem run_safe (hA : A.Guarded) (hp : p.Framed A) (start : Keyed V) (limit : Int) :
    ∃ first r, initial A p start = .ok first ∧ Simplex.run A p start limit = .ok r ∧ Finished p limit r ∧
      (∀ n s, Reaches A p n first s → Steady p s ∧ ∃ next, step A p s = .ok next) ∧
      ∃ s, Reaches A p r.pivots.toNat first s ∧ r.values = some s.values ∧ r.basis = some s.tableau.sortedKeys := by
  obtain ⟨first, hfirst, hsteady⟩ := steady_initial hp start
  have hnever : ∀ fault : Fault, fault = .divisionByZero ∧ ¬A.Guarded → False := fun _ h => h.2 hA
  obtain ⟨r, hr, hfinished⟩ := ((run_finishes hp start limit).imp (fun _ => id) hnever).exists_ok
  refine ⟨first, r, hfirst, hr, hfinished, fun n s hreaches => ?_, ?_⟩
  · have hs : Steady p s := hreaches.steady hsteady
    exact ⟨hs, hs.exists_next hA⟩
  · unfold Simplex.run at hr
    rw [hfirst] at hr
    obtain ⟨n, s, hreaches, hcount, hvalues, hbasis⟩ := reaches_of_iterate (Nat.zero_add _) hr
    rw [Nat.zero_add] at hcount
    exact ⟨s, hcount ▸ hreaches, hvalues, hbasis⟩

/-- `x₃ = 2·x₀ - ∞·x₁` with `x₃ ≥ 1`, and `x₄ = ∞·x₁ + u·x₂ - x₀` with `x₄ ≤ 2`, where `u` is undefined -/
def unruly : Problem Double Double where
  rows := [⟨[(3, Double.one.neg), (0, .finite 2), (1, .negInf)], by decide⟩,
    ⟨[(4, Double.one.neg), (1, .posInf), (2, .nan), (0, Double.one.neg)], by decide⟩]
  basis := [3, 4]
  spans := [{}, {}, { upper := some .zero }, { low := some .one }, { upper := some (.finite 2) }]

theorem framed_unruly (tolerance : Double) : unruly.Framed (.double tolerance) where
  paired := rfl
  ranged := by
    show ∀ row ∈ unruly.rows, ∀ j ∈ row.keys, 0 ≤ j ∧ j < 5
    decide
  solvable := by
    show ∀ r ∈ unruly.rows.zip unruly.basis, ∃ c, r.1.get? r.2 = some c ∧ Double.isZero c = false
    simp [unruly, get?, valueOf]
    decide
  distinct := by decide
  alone := by simp [unruly, keys]

/-- a start that gives one column a value and another an undefined one -/
def unrulyStart : Keyed Double := ofList [(1, .one), (2, .nan)]

/-- all three arithmetics are guarded; an exchange that makes values and coefficients infinite and undefined does not
make a run over doubles fail -/
theorem unruly_is_safe : Arithmetic.exact.Guarded ∧ (∀ digits, (Arithmetic.extended digits).Guarded) ∧
    (Arithmetic.double Arithmetic.usualTolerance).Guarded ∧
    ∃ r, Simplex.run (.double Arithmetic.usualTolerance) unruly unrulyStart 7 = .ok r ∧ Finished unruly 7 r ∧
      r.outcome = .feasible ∧ r.pivots = 1 ∧ r.basis = some [0, 4] := by
  have hguarded : (Arithmetic.double Arithmetic.usualTolerance).Guarded :=
    Arithmetic.guarded_double (by decide +kernel)
  obtain ⟨first, r, -, hr, hfinished, -⟩ := run_safe hguarded (framed_unruly _) unrulyStart 7
  have hreport : (Simplex.run (.double Arithmetic.usualTolerance) unruly unrulyStart 7).map
      (fun r => (r.outcome, r.pivots, r.basis)) = .ok (.feasible, 1, some [0, 4]) := by decide +kernel
  rw [hr] at hreport
  obtain ⟨houtcome, hrest⟩ := Prod.mk.inj (Except.ok.inj hreport)
  obtain ⟨hpivots, hbasis⟩ := Prod.mk.inj hrest
  exact ⟨Arithmetic.guarded_exact, Arithmetic.guarded_extended, hguarded, r, hr, hfinished, houtcome, hpivots, hbasis⟩

end Simplex

end Halfspace
