/-
Runs in any arithmetic.

Nothing is asked of the operations here: sums may overflow, comparisons may contradict each other, undefined numbers may
turn up anywhere. What keeps a run from going wrong is where its columns stand. `Steady p s` says that the state has a
value for every column and one basic column for each row, and that no basic column occurs in a row. Every exchange keeps
it, so that no column is ever missing. A division fails when its divisor is null, and the entering column is chosen among
those whose coefficient does not count as zero: in an arithmetic where null counts as zero (`Guarded`) none fails.
- `steady_initial`, `exchange_steady`, `step_steady`: the first state, one exchange, one step;
- `run_finishes`: a run finishes with the report of a steady state (`Finished`), or divides by a null that does not count
  as zero;
- `Finished.exists_resting`: from the report of a finished run the places of columns can be read off.
-/
import Halfspace.Proofs.Engine.Pivot
import Halfspace.Proofs.Engine.Values
import Halfspace.Proofs.Fallible
import Halfspace.Proofs.Rounding
import Halfspace.Resting

namespace Halfspace

open Keyed

variable {K V : Type} {A : Arithmetic K V} {p : Problem K V}

namespace Arithmetic

def Guarded (A : Arithmetic K V) : Prop := ∀ a, A.isNull a = true → A.isZero a = true

theorem guarded_exact : exact.Guarded := fun _ => id

/-- zeros of either sign are within a tolerance that is not negative -/
theorem guarded_double {tolerance : Double} (h : Double.zero.le tolerance = true) : (double tolerance).Guarded := by
  intro a hnull
  have hvalue : a.value? = some 0 := of_decide_eq_true hnull
  have habs : a.abs = Double.zero := by
    cases a with
    | finite q =>
      cases hvalue
      decide
    | negZero => rfl
    | posInf => cases hvalue
    | negInf => cases hvalue
    | nan => cases hvalue
  show a.abs.le tolerance = true
  rw [habs]
  exact h

theorem guarded_extended (digits : Nat) : (extended digits).Guarded := by
  intro a hnull
  have hzero : a = 0 := of_decide_eq_true hnull
  subst hzero
  exact decide_eq_true (extendedTolerance_nonneg digits)

end Arithmetic

namespace Simplex

variable {s s' : State K V} {b j : Int} {side : Breach} {row : Row K} {a : K}

/-- a state whose columns stand where they should -/
structure Steady (p : Problem K V) (s : State K V) : Prop where
  length : s.values.length = p.width
  within : s.tableau.Within p.width
  separate : s.tableau.Separate
  size : s.tableau.keys.length = p.rows.length

/-! ## The start -/

theorem exists_rowValue {xs : List V} (h : ∀ j ∈ row.keys, 0 ≤ j ∧ j < xs.length) :
    ∃ v, rowValue A row xs = .ok v := by
  unfold rowValue
  rw [foldlM_ok (g := fun total e => A.plus total (A.scale e.2 (look A xs e.1)))]
  · exact ⟨_, rfl⟩
  · intro total e he
    rw [fetch_eq_look (A := A) (h e.1 (mem_keys_of_mem_entries he))]
    rfl

/-- the basic columns get values one after another -/
theorem exists_initialValues {t : Tableau K} (h : t.Within p.width) (start : Keyed V) :
    ∃ values, initialValues A p t start = .ok values ∧ values.length = p.width := by
  unfold initialValues
  apply Ends.exists_ok
  apply Ends.foldlM
  · intro values hlength e he
    have hbasic := h.basic e.1 (mem_keys_of_mem_entries he)
    have hrow := h.row e.1 e.2 (get?_eq_some_iff.2 he)
    rw [← hlength] at hbasic hrow
    obtain ⟨v, hv⟩ := exists_rowValue (A := A) hrow
    rw [hv]
    show Ends _ _ (assign values e.1 v)
    rw [assign_of_within hbasic]
    exact (length_replaceAt _ _ _).trans hlength
  · simp

/-- **The first state** of a framed problem exists, whatever values are proposed, and is steady. -/
theorem steady_initial (hp : p.Framed A) (start : Keyed V) : ∃ s, initial A p start = .ok s ∧ Steady p s := by
  obtain ⟨t, ht, hseparate, hwithin, -⟩ := Tableau.ofProblem_spec hp
  obtain ⟨values, hvalues, hlength⟩ := exists_initialValues (A := A) hwithin start
  refine ⟨⟨t, values⟩, ?_, hlength, hwithin, hseparate, Tableau.length_keys_ofProblem hp ht⟩
  unfold initial
  rw [ht]
  show (initialValues A p t start >>= fun values => _) = _
  rw [hvalues]
  rfl

/-! ## One step -/

theorem mem_keys_of_leaving? (h : leaving? A p s = some (b, side)) : b ∈ s.tableau.keys := by
  obtain ⟨b', hb', hbreach, -⟩ := findSome?_sortedKeys_eq_some (Option.filter_eq_some_iff.1 h).1
  obtain ⟨side', -, heq⟩ := Option.map_eq_some_iff.1 hbreach
  cases heq
  exact hb'

/-- the entering column stands in the row, with a coefficient that does not count as zero -/
theorem entry_of_entering? (h : entering? A p s side row = some (j, a)) : row.get? j = some a ∧ A.isZero a = false := by
  obtain ⟨hmem, hrepairs, -⟩ := find?_byKey_eq_some (Option.filter_eq_some_iff.1 h).1
  refine ⟨get?_eq_some_iff.2 hmem, ?_⟩
  unfold canRepair at hrepairs
  simpa using (Bool.and_eq_true_iff.1 hrepairs).1

/-- **One exchange** keeps a state steady, unless it divides by null. -/
theorem exchange_steady (h : Steady p s) (hrow : s.tableau.get? b = some row) (hentry : row.get? j = some a) (goal : V) :
    Ends (Steady p) (fun fault => fault = .divisionByZero ∧ A.isNull a = true) (exchange A s b j a goal) := by
  unfold exchange Arithmetic.quotientOf
  cases hnull : A.isNull a with
  | true => exact ⟨rfl, rfl⟩
  | false =>
    obtain ⟨t, ht, -⟩ := Tableau.pivot_rows hrow hentry hnull
    rw [if_neg Bool.false_ne_true, ht]
    refine ⟨?_, Tableau.within_pivot hrow hentry hnull ht h.within,
      Tableau.separate_pivot hrow hentry hnull ht h.separate,
      (Tableau.length_keys_pivot hrow hentry hnull ht h.separate).trans h.size⟩
    show (drag _ _ _ _ _ _).length = _
    rw [length_drag, length_shift, length_replaceAt, h.length]

/-- **One step** goes on in a steady state if it goes on, unless it divides by a null that does not count as zero. -/
theorem step_steady (h : Steady p s) :
    Ends (fun next => ∀ s', next = .continues s' → Steady p s') (fun fault => fault = .divisionByZero ∧ ¬A.Guarded)
      (step A p s) := by
  unfold step
  cases hleaving : leaving? A p s with
  | none => exact nofun
  | some r =>
    obtain ⟨b, side⟩ := r
    obtain ⟨row, hrow⟩ := mem_keys_iff.1 (mem_keys_of_leaving? hleaving)
    simp only [hrow, Option.getD_some]
    cases hentering : entering? A p s side row with
    | none => exact nofun
    | some e =>
      obtain ⟨j, a⟩ := e
      obtain ⟨hentry, hzero⟩ := entry_of_entering? hentering
      have hexchange := exchange_steady (A := A) h hrow hentry (target A p b side)
      apply Ends.map (P := Steady p)
      · apply hexchange.imp (fun _ => id)
        intro fault hfails
        refine ⟨hfails.1, fun hguarded => ?_⟩
        cases hzero.symm.trans (hguarded a hfails.2)
      · intro s' hsteady s'' hcontinues
        cases hcontinues
        exact hsteady

/-! ## Runs -/

/-- what a finished run reports: a value for every column, and a basis with one column for each row -/
structure Finished (p : Problem K V) (limit : Int) (r : Run K V) : Prop where
  outcome : r.outcome = .feasible ∨ r.outcome = .infeasible ∨ r.outcome = .iterationLimit
  values : ∃ xs, r.values = some xs ∧ xs.length = p.width
  basis : ∃ js, r.basis = some js ∧ js.length = p.rows.length ∧ js.Pairwise (· < ·) ∧ ∀ j ∈ js, 0 ≤ j ∧ j < p.width
  pivots : r.pivots ≤ limit

theorem Steady.finished (h : Steady p s) {limit : Int} {r : Run K V}
    (houtcome : r.outcome = .feasible ∨ r.outcome = .infeasible ∨ r.outcome = .iterationLimit)
    (hvalues : r.values = some s.values) (hbasis : r.basis = some s.tableau.sortedKeys) (hpivots : r.pivots ≤ limit) :
    Finished p limit r where
  outcome := houtcome
  values := ⟨s.values, hvalues, h.length⟩
  basis := by
    have hsize : s.tableau.sortedKeys.length = s.tableau.keys.length := ((perm_byKey s.tableau).map _).length_eq
    exact ⟨s.tableau.sortedKeys, hbasis, hsize.trans h.size, pairwise_sortedKeys, fun j hj =>
      h.within.basic j (mem_sortedKeys.1 hj)⟩
  pivots := hpivots

/-- the rest of a run, by induction on the exchanges that are left -/
theorem iterate_finishes (h : Steady p s) {limit : Int} {remaining made : Nat}
    (hlimit : made + remaining ≤ limit.toNat) :
    Ends (Finished p limit) (fun fault => fault = .divisionByZero ∧ ¬A.Guarded)
      (iterate A p limit remaining made s) := by
  induction remaining generalizing s made with
  | zero => exact h.finished (Or.inr (Or.inr rfl)) rfl rfl le_rfl
  | succ remaining ih =>
    have hmade : (made : Int) ≤ limit := by omega
    rw [iterate]
    apply Ends.bind (step_steady h)
    intro next hnext
    cases next with
    | feasible => exact h.finished (Or.inl rfl) rfl rfl hmade
    | infeasible conflict side => exact h.finished (Or.inr (Or.inl rfl)) rfl rfl hmade
    | continues s' => exact ih (hnext s' rfl) (by omega)

/-- **Runs.** A run on a framed problem finishes, in whatever arithmetic and from whatever start, unless it divides by a
null that does not count as zero. -/
theorem run_finishes (hp : p.Framed A) (start : Keyed V) (limit : Int) :
    Ends (Finished p limit) (fun fault => fault = .divisionByZero ∧ ¬A.Guarded) (Simplex.run A p start limit) := by
  obtain ⟨s, hs, hsteady⟩ := steady_initial hp start
  unfold Simplex.run
  rw [hs]
  exact iterate_finishes hsteady (by omega)

/-- the places of columns can be read off a finished run -/
theorem Finished.exists_resting {limit : Int} {r : Run K V} (h : Finished p limit r) :
    ∃ resting, Resting.ofRun A p r = .ok resting := by
  obtain ⟨xs, hxs, hlength⟩ := h.values
  unfold Resting.ofRun
  split
  · rename_i values hvalues
    cases hxs.symm.trans hvalues
    refine (Ends.exists_ok (Ends.foldlM (Q := fun _ => True) (fun resting _ j hj => ?_) trivial)).imp fun _ => And.left
    have hlt : j < xs.length := hlength ▸ List.mem_range.1 hj
    rw [List.getElem?_eq_getElem hlt]
    split_ifs
    · exact trivial
    · dsimp only
      split <;> exact trivial
  · exact ⟨_, rfl⟩

end Simplex

end Halfspace
