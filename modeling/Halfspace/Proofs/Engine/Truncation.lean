/-
The limit on exchanges only cuts a run off.

No step looks at the limit or at the exchanges made so far, so that under every limit a run passes through the same
states, as far as it goes. Either one of them closes the run, or exchanges go on for ever (`run_trichotomy`).
- `Closes`: the step of a state ends the run, and how;
- `iterate_of_closes`, `iterate_cut`: a run that is closed after `k` exchanges ends so under every limit above `k`, and
  is cut off at every limit up to `k`;
- `limit_truncates`: two runs of which only the limits differ.
Nothing is asked of the arithmetic, of the problem or of the start.
-/
import Halfspace.Proofs.Engine.Iterations

namespace Halfspace

namespace Simplex

variable {K V : Type} {A : Arithmetic K V} {p : Problem K V} {s s' : State K V}

/-! ## The end of a run -/

/-- the step of a state ends the run, with a report on `made` exchanges or with a fault -/
inductive Closes (A : Arithmetic K V) (p : Problem K V) (s : State K V) (made : Int) :
    Except Fault (Run K V) → Prop where
  | fails {fault : Fault} (hstep : step A p s = .error fault) : Closes A p s made (.error fault)
  | feasible (hstep : step A p s = .ok .feasible) : Closes A p s made (.ok (s.stop .feasible made))
  | infeasible {conflict : List (K × Int)} {side : Breach} (hstep : step A p s = .ok (.infeasible conflict side)) :
      Closes A p s made
        (.ok { s.stop .infeasible made with conflict := some conflict, direction := side.direction })

theorem Closes.conclusive {made : Int} {r : Run K V} (h : Closes A p s made (.ok r)) :
    r.outcome ≠ .iterationLimit ∧ r.pivots = made := by
  cases h with
  | feasible => exact ⟨nofun, rfl⟩
  | infeasible => exact ⟨nofun, rfl⟩

theorem closes_or_continues (A : Arithmetic K V) (p : Problem K V) (s : State K V) (made : Int) :
    (∃ x, Closes A p s made x) ∨ ∃ s', step A p s = .ok (.continues s') := by
  cases hstep : step A p s with
  | error fault => exact .inl ⟨_, .fails hstep⟩
  | ok next =>
    cases next with
    | feasible => exact .inl ⟨_, .feasible hstep⟩
    | infeasible conflict side => exact .inl ⟨_, .infeasible hstep⟩
    | continues s' => exact .inr ⟨s', rfl⟩

/-! ## One run under many limits -/

theorem iterate_of_continues {limit : Int} {remaining made : Nat} (hstep : step A p s = .ok (.continues s')) :
    iterate A p limit (remaining + 1) made s = iterate A p limit remaining (made + 1) s' := by
  rw [iterate, hstep]
  rfl

/-- a run that may make more exchanges than lead to its end comes there, by induction on these exchanges -/
theorem iterate_of_closes {k : Nat} {x : Except Fault (Run K V)} (hreaches : Reaches A p k s s') {made remaining : Nat}
    (hcloses : Closes A p s' (made + k : Nat) x) (hlt : k < remaining) (limit : Int) :
    iterate A p limit remaining made s = x := by
  obtain ⟨remaining, rfl⟩ := Nat.exists_eq_succ_of_ne_zero (Nat.ne_zero_of_lt hlt)
  induction hreaches generalizing made remaining with
  | refl =>
    rw [iterate]
    cases hcloses with
    | fails hstep => rw [hstep]; rfl
    | feasible hstep => rw [hstep]; rfl
    | infeasible hstep => rw [hstep]; rfl
  | @next n s t _ hstep _ ih =>
    rw [iterate_of_continues hstep]
    obtain ⟨remaining, rfl⟩ := Nat.exists_eq_succ_of_ne_zero (by omega : remaining ≠ 0)
    have hcount : made + (n + 1) = made + 1 + n := by omega
    exact ih (hcount ▸ hcloses) remaining (by omega)

/-- a run that may make no more exchanges than can be made is cut off -/
theorem iterate_cut {k : Nat} (hreaches : Reaches A p k s s') {remaining : Nat} (hle : remaining ≤ k) (limit : Int)
    (made : Nat) : ∃ t : State K V, iterate A p limit remaining made s = .ok (t.stop .iterationLimit limit) := by
  induction hreaches generalizing made remaining with
  | refl s =>
    rw [Nat.le_zero.1 hle]
    exact ⟨s, rfl⟩
  | @next n s t _ hstep _ ih =>
    cases remaining with
    | zero => exact ⟨s, rfl⟩
    | succ remaining =>
      rw [iterate_of_continues hstep]
      exact ih (Nat.le_of_succ_le_succ hle) (made + 1)

theorem Reaches.concat {n : Nat} {s'' : State K V} (hreaches : Reaches A p n s s')
    (hstep : step A p s' = .ok (.continues s'')) : Reaches A p (n + 1) s s'' := by
  induction hreaches with
  | refl s => exact .next hstep (.refl s'')
  | next hfirst _ ih => exact .next hfirst (ih hstep)

/-- exchanges lead to an end within a number of them, or go on so far -/
theorem closes_or_reaches (A : Arithmetic K V) (p : Problem K V) (s : State K V) (n : Nat) :
    (∃ k s' x, Reaches A p k s s' ∧ Closes A p s' k x) ∨ ∃ s', Reaches A p n s s' := by
  induction n with
  | zero => exact .inr ⟨s, .refl s⟩
  | succ n ih =>
    rcases ih with hends | ⟨s', hreaches⟩
    · exact .inl hends
    · rcases closes_or_continues A p s' n with ⟨x, hcloses⟩ | ⟨s'', hstep⟩
      · exact .inl ⟨n, s', x, hreaches, hcloses⟩
      · exact .inr ⟨s'', hreaches.concat hstep⟩

/-- a run under a limit was cut off there -/
def CutOff (A : Arithmetic K V) (p : Problem K V) (start : Keyed V) (limit : Int) : Prop :=
  ∃ r, Simplex.run A p start limit = .ok r ∧ r.outcome = .iterationLimit ∧ r.pivots = limit

theorem CutOff.report {start : Keyed V} {limit : Int} {r : Run K V} (h : CutOff A p start limit)
    (hr : Simplex.run A p start limit = .ok r) : r.outcome = .iterationLimit ∧ r.pivots = limit := by
  obtain ⟨r', hr', hreport⟩ := h
  cases hr'.symm.trans hr
  exact hreport

theorem CutOff.ne_error {start : Keyed V} {limit : Int} {fault : Fault} (h : CutOff A p start limit) :
    Simplex.run A p start limit ≠ .error fault := by
  obtain ⟨r, hr, -⟩ := h
  rw [hr]
  exact nofun

/-- **All limits at once.** Either no run begins, all with one fault; or there is a number `k` of exchanges after which
every run ends with one result, unless its limit is at most `k` and it was cut off there; or every run is cut off. -/
theorem run_trichotomy (A : Arithmetic K V) (p : Problem K V) (start : Keyed V) :
    (∃ fault, ∀ limit, Simplex.run A p start limit = .error fault) ∨
      (∃ (k : Nat) (x : Except Fault (Run K V)),
        (∀ r, x = .ok r → r.outcome ≠ .iterationLimit ∧ r.pivots = k) ∧
        ∀ limit : Int, (k < limit → Simplex.run A p start limit = x) ∧ (limit ≤ k → CutOff A p start limit)) ∨
      ∀ limit, CutOff A p start limit := by
  cases hfirst : initial A p start with
  | error fault =>
    refine .inl ⟨fault, fun limit => ?_⟩
    rw [Simplex.run, hfirst]
    rfl
  | ok s =>
    have hrun : ∀ limit, Simplex.run A p start limit = iterate A p limit limit.toNat 0 s := by
      intro limit
      rw [Simplex.run, hfirst]
      rfl
    have hcut : ∀ (limit : Int) (k : Nat) (s' : State K V), Reaches A p k s s' → limit.toNat ≤ k →
        CutOff A p start limit := by
      intro limit k s' hreaches hle
      obtain ⟨t, ht⟩ := iterate_cut hreaches hle limit 0
      exact ⟨_, (hrun limit).trans ht, rfl, rfl⟩
    by_cases hends : ∃ k s' x, Reaches A p k s s' ∧ Closes A p s' (k : Nat) x
    · obtain ⟨k, s', x, hreaches, hcloses⟩ := hends
      refine .inr (.inl ⟨k, x, fun r hr => ?_, fun limit => ⟨fun hlt => ?_, fun hle => ?_⟩⟩)
      · subst hr
        exact hcloses.conclusive
      · rw [hrun]
        exact iterate_of_closes hreaches ((Nat.zero_add k).symm ▸ hcloses) (by omega) limit
      · exact hcut limit k s' hreaches (by omega)
    · refine .inr (.inr fun limit => ?_)
      obtain ⟨s', hreaches⟩ := (closes_or_reaches A p s limit.toNat).resolve_left hends
      exact hcut limit limit.toNat s' hreaches le_rfl

/-! ## Two limits -/

variable {start : Keyed V} {m : Int} {r : Run K V}

/-- a conclusive result takes a number of exchanges, and is found under the limits above it and under no other -/
theorem exists_threshold (hr : Simplex.run A p start m = .ok r) (hdecided : r.outcome ≠ .iterationLimit) :
    ∃ k : Nat, r.pivots = k ∧
      ∀ limit : Int, (k < limit → Simplex.run A p start limit = .ok r) ∧ (limit ≤ k → CutOff A p start limit) := by
  rcases run_trichotomy A p start with ⟨fault, hfails⟩ | ⟨k, x, hends, hlimits⟩ | hcut
  · cases (hfails m).symm.trans hr
  · rcases lt_or_ge (k : Int) m with hlt | hge
    · have hok : x = .ok r := ((hlimits m).1 hlt).symm.trans hr
      subst hok
      exact ⟨k, (hends r rfl).2, hlimits⟩
    · exact absurd (((hlimits m).2 hge).report hr).1 hdecided
  · exact absurd ((hcut m).report hr).1 hdecided

theorem pivots_of_cutOff (hr : Simplex.run A p start m = .ok r) (hlimit : r.outcome = .iterationLimit) :
    r.pivots = m := by
  rcases run_trichotomy A p start with ⟨fault, hfails⟩ | ⟨k, x, hends, hlimits⟩ | hcut
  · cases (hfails m).symm.trans hr
  · rcases lt_or_ge (k : Int) m with hlt | hge
    · exact absurd hlimit (hends r (((hlimits m).1 hlt).symm.trans hr)).1
    · exact (((hlimits m).2 hge).report hr).2
  · exact ((hcut m).report hr).2

/-- a run that fails does so under every higher limit -/
theorem error_of_le {m' : Int} {fault : Fault} (hfault : Simplex.run A p start m = .error fault) (hle : m ≤ m') :
    Simplex.run A p start m' = .error fault := by
  rcases run_trichotomy A p start with ⟨fault', hfails⟩ | ⟨k, x, hends, hlimits⟩ | hcut
  · exact (hfails m').trans ((hfails m).symm.trans hfault)
  · rcases lt_or_ge (k : Int) m with hlt | hge
    · exact ((hlimits m').1 (hlt.trans_le hle)).trans (((hlimits m).1 hlt).symm.trans hfault)
    · exact absurd hfault ((hlimits m).2 hge).ne_error
  · exact absurd hfault (hcut m).ne_error

/-- **The limit only truncates.** A run that is not cut off ends as it does under every higher limit, after fewer
exchanges than its own limit, and so does one that fails. A run that is cut off reports its limit, and under a higher
one at least as many exchanges are needed. A result that takes `k` exchanges is found under the limits above `k` and
under no other. -/
theorem limit_truncates (A : Arithmetic K V) (p : Problem K V) (start : Keyed V) {m m' : Int} (hle : m ≤ m') :
    (∀ r, Simplex.run A p start m = .ok r → r.outcome ≠ .iterationLimit →
      Simplex.run A p start m' = .ok r ∧ r.pivots < m) ∧
    (∀ r, Simplex.run A p start m = .ok r → r.outcome = .iterationLimit → r.pivots = m ∧
      ∀ r', Simplex.run A p start m' = .ok r' → r'.outcome ≠ .iterationLimit → m ≤ r'.pivots) ∧
    (∀ fault, Simplex.run A p start m = .error fault → Simplex.run A p start m' = .error fault) ∧
    ∀ r, Simplex.run A p start m' = .ok r → r.outcome ≠ .iterationLimit → ∃ k : Nat, r.pivots = k ∧
      ∀ limit : Int, (k < limit → Simplex.run A p start limit = .ok r) ∧ (limit ≤ k → CutOff A p start limit) := by
  refine ⟨fun r hr hdecided => ?_, fun r hr hlimit => ⟨pivots_of_cutOff hr hlimit, fun r' hr' hdecided => ?_⟩,
    fun fault hfault => error_of_le hfault hle, fun r hr hdecided => exists_threshold hr hdecided⟩
  · obtain ⟨k, hk, hlimits⟩ := exists_threshold hr hdecided
    rcases lt_or_ge (k : Int) m with hlt | hge
    · exact ⟨(hlimits m').1 (hlt.trans_le hle), hk ▸ hlt⟩
    · exact absurd (((hlimits m).2 hge).report hr).1 hdecided
  · -- otherwise the lower limit would do for the same result
    obtain ⟨k, hk, hlimits⟩ := exists_threshold hr' hdecided
    rw [hk]
    by_contra hlt
    cases ((hlimits m).1 (not_le.1 hlt)).symm.trans hr
    exact hdecided hlimit

/-- `x₂ = x₀ + x₁ ≥ 4` and `x₃ = x₀ - x₁ ≤ -2`, where each row takes one exchange -/
def stepwise : Problem Double Double where
  rows := [⟨[(0, .one), (1, .one), (2, Double.one.neg)], by decide⟩,
    ⟨[(0, .one), (1, Double.one.neg), (3, Double.one.neg)], by decide⟩]
  basis := [2, 3]
  spans := [{}, {}, { low := some (.finite 4) }, { upper := some (.finite (-2)) }]

/-- with at most two exchanges the run is cut off, with any more it ends after two -/
theorem stepwise_is_truncated : (3 : Int) ≤ 100000 ∧ ∃ r,
    Simplex.run (.double Arithmetic.usualTolerance) stepwise Keyed.empty 3 = .ok r ∧ r.outcome = .feasible ∧
    r.pivots = 2 ∧ Simplex.run (.double Arithmetic.usualTolerance) stepwise Keyed.empty 100000 = .ok r ∧
    (∀ limit : Int, 2 < limit → Simplex.run (.double Arithmetic.usualTolerance) stepwise Keyed.empty limit = .ok r) ∧
    ∀ limit : Int, limit ≤ 2 → CutOff (.double Arithmetic.usualTolerance) stepwise Keyed.empty limit := by
  have hreport : (Simplex.run (.double Arithmetic.usualTolerance) stepwise Keyed.empty 3).map
      (fun r => (r.outcome, r.pivots)) = .ok (.feasible, 2) := by decide +kernel
  obtain ⟨r, hr, hparts⟩ := map_eq_ok_iff.1 hreport
  obtain ⟨houtcome, hpivots⟩ := Prod.mk.inj hparts
  have hdecided : r.outcome ≠ .iterationLimit := by
    rw [houtcome]
    exact nofun
  have hle : (3 : Int) ≤ 100000 := by decide
  obtain ⟨hsame, -, -, hneeds⟩ := limit_truncates (.double Arithmetic.usualTolerance) stepwise Keyed.empty hle
  have hhigh := (hsame r hr hdecided).1
  obtain ⟨k, hk, hlimits⟩ := hneeds r hhigh hdecided
  have htwo : (k : Int) = 2 := hk.symm.trans hpivots
  rw [htwo] at hlimits
  exact ⟨hle, r, hr, houtcome, hpivots, hhigh, fun limit => (hlimits limit).1, fun limit => (hlimits limit).2⟩

end Simplex

end Halfspace
