/-
The row in which a run ends infeasible, as a refutation.

The row gives weights to columns. A column with a positive weight is held back by its upper bound, one with a negative
weight by its low bound; with these bounds in the place of the columns the weighted sum is negative, while it is zero
for all values at which the rows of the problem vanish. `Refutes` says all this, and `refutes_conflictRow` proves it of
every stuck column. No values satisfy the rows and the bounds of a problem that is refuted (`Refutes.no_values`).

No weight of the row can be spared. The columns outside the basis are free; where one of them is left out of the row,
the basic column of the row is free in its place (`irredundant_conflictRow`).
-/
import Halfspace.Proofs.Engine.Run

namespace Halfspace

open Keyed

/-- weights of columns that no values within the bounds can satisfy -/
structure Refutes (p : Problem Rat Delta) (ws : List (Rat × Int)) : Prop where
  in_range : ∀ w ∈ ws, 0 ≤ w.2 ∧ w.2 < p.width
  distinct : (ws.map (·.2)).Nodup
  nonzero : ∀ w ∈ ws, w.1 ≠ 0
  vanishes : ∀ (M : Type) [AddCommGroup M] [Module Rat M] (x : Int → M), p.Vanishes x →
    (ws.map fun w => w.1 • x w.2).sum = 0
  held : ∀ w ∈ ws, ∃ g, (p.span w.2).holding w.1 = some g
  negative : (ws.map fun w => w.1 • ((p.span w.2).holding w.1).getD 0).sum < 0

/-- **Refuted problems.** No values satisfy all rows and all bounds. -/
theorem Refutes.no_values {p : Problem Rat Delta} {ws : List (Rat × Int)} (h : Refutes p ws) {x : Int → Delta}
    (hrows : p.Vanishes x) (hbounds : ∀ j : Int, 0 ≤ j ∧ j < p.width → (p.span j).Contains (x j)) : False := by
  have hle : (ws.map fun w => w.1 • x w.2).sum ≤ (ws.map fun w => w.1 • ((p.span w.2).holding w.1).getD 0).sum := by
    refine List.sum_le_sum fun w hw => ?_
    obtain ⟨g, hg⟩ := h.held w hw
    rw [hg]
    exact Span.smul_le_holding hg (hbounds w.2 (h.in_range w hw))
  rw [h.vanishes Delta x hrows] at hle
  exact absurd h.negative hle.not_gt

namespace Simplex

variable {p : Problem Rat Delta} {s : State Rat Delta} {b : Int} {side : Breach} {row : Row Rat}

/-- both forms of the row at once: the entries by the sign of the breach, and the violated column against it -/
theorem conflictRow_eq (row : Row Rat) (b : Int) (side : Breach) :
    conflictRow Arithmetic.exact row b side =
      (row.byKey.filter fun e => e.2 ≠ 0).map (fun e => (side.sign * e.2, e.1)) ++ [(-side.sign, b)] := by
  cases side <;> simp [conflictRow, Breach.sign]

theorem mem_conflictRow {w : Rat × Int} (h : w ∈ conflictRow Arithmetic.exact row b side) :
    (∃ e ∈ row.entries, e.2 ≠ 0 ∧ w = (side.sign * e.2, e.1)) ∨ w = (-side.sign, b) := by
  rw [conflictRow_eq, List.mem_append, List.mem_singleton, List.mem_map] at h
  rcases h with ⟨e, he, rfl⟩ | rfl
  · obtain ⟨hmem, hne⟩ := List.mem_filter.1 he
    exact Or.inl ⟨e, mem_byKey.1 hmem, by simpa using hne, rfl⟩
  · exact Or.inr rfl

theorem sum_filter_smul {M : Type} [AddCommGroup M] [Module Rat M] (k : Rat) (x : Int → M) (es : List (Int × Rat)) :
    ((es.filter fun e => e.2 ≠ 0).map fun e => (k * e.2) • x e.1).sum = k • (es.map fun e => e.2 • x e.1).sum := by
  induction es with
  | nil => simp
  | cons e rest ih =>
    by_cases he : e.2 = 0
    · rw [List.filter_cons_of_neg (by simpa using he), ih, List.map_cons, List.sum_cons, he, zero_smul, zero_add]
    · rw [List.filter_cons_of_pos (by simpa using he), List.map_cons, List.sum_cons, ih, List.map_cons, List.sum_cons,
        smul_add, smul_smul]

/-- the weighted sum of the columns is the difference between the row and its basic column -/
theorem sum_conflictRow {M : Type} [AddCommGroup M] [Module Rat M] (row : Row Rat) (b : Int) (side : Breach)
    (x : Int → M) :
    ((conflictRow Arithmetic.exact row b side).map fun w => w.1 • x w.2).sum =
      side.sign • (Row.total row x - x b) := by
  have hperm : (row.byKey.map fun e => e.2 • x e.1).sum = Row.total row x := ((perm_byKey row).map _).sum_eq
  calc ((conflictRow Arithmetic.exact row b side).map fun w => w.1 • x w.2).sum
    _ = ((row.byKey.filter fun e => e.2 ≠ 0).map fun e => (side.sign * e.2) • x e.1).sum + -side.sign • x b := by
      rw [conflictRow_eq, List.map_append, List.sum_append, List.map_map, List.map_singleton, List.sum_singleton]
      rfl
    _ = side.sign • Row.total row x + -side.sign • x b := by rw [sum_filter_smul, hperm]
    _ = side.sign • (Row.total row x - x b) := by rw [smul_sub, neg_smul, sub_eq_add_neg]

theorem nodup_conflictRow (hb : b ∉ row.keys) : ((conflictRow Arithmetic.exact row b side).map (·.2)).Nodup := by
  have hkeys : (row.byKey.map (·.1)).Nodup := nodup_byKey
  rw [conflictRow_eq, List.map_append, List.map_map]
  show (((row.byKey.filter fun e => e.2 ≠ 0).map (·.1)) ++ [b]).Nodup
  rw [List.nodup_append]
  refine ⟨hkeys.sublist (List.filter_sublist.map _), List.nodup_singleton b, fun k hk k' hk' => ?_⟩
  obtain ⟨e, he, rfl⟩ := List.mem_map.1 hk
  rw [List.mem_singleton.1 hk']
  exact fun heb => hb (heb ▸ mem_keys_of_mem_entries (mem_byKey.1 (List.mem_filter.1 he).1))

/-- **Stuck columns.** The row of a violated column that no column can repair refutes the problem. -/
theorem refutes_conflictRow (h : Sound p s) (hstuck : Stuck p s b side row) :
    Refutes p (conflictRow Arithmetic.exact row b side) := by
  have hbasic : b ∈ s.tableau.keys := mem_keys_iff.2 ⟨row, hstuck.row_eq⟩
  have hheld : ∀ w ∈ conflictRow Arithmetic.exact row b side,
      ∃ g, (p.span w.2).holding w.1 = some g ∧ w.1 • g ≤ w.1 • s.at w.2 := by
    intro w hw
    rcases mem_conflictRow hw with ⟨e, he, hne, rfl⟩ | rfl
    · exact holding_of_not_repairs (hstuck.stuck e he) hne
    · obtain ⟨g, hg, hlt⟩ := holding_of_breach hstuck.breach
      exact ⟨g, hg, hlt.le⟩
  have hsum : ∀ (M : Type) [AddCommGroup M] [Module Rat M] (x : Int → M), p.Vanishes x →
      ((conflictRow Arithmetic.exact row b side).map fun w => w.1 • x w.2).sum = 0 := by
    intro M _ _ x hx
    rw [sum_conflictRow, ((h.same M x).2 hx) b row hstuck.row_eq, sub_self, smul_zero]
  refine ⟨fun w hw => ?_, nodup_conflictRow fun hb => h.separate b row hstuck.row_eq b hb hbasic, fun w hw => ?_, hsum,
    fun w hw => (hheld w hw).imp fun g hg => hg.1, ?_⟩
  · rcases mem_conflictRow hw with ⟨e, he, -, rfl⟩ | rfl
    · exact h.within.row b row hstuck.row_eq e.1 (mem_keys_of_mem_entries he)
    · exact h.within.basic b hbasic
  · rcases mem_conflictRow hw with ⟨e, -, hne, rfl⟩ | rfl
    · exact mul_ne_zero (Breach.sign_ne_zero side) hne
    · exact neg_ne_zero.2 (Breach.sign_ne_zero side)
  · rw [← hsum Delta s.at ((h.same Delta _).1 h.solves)]
    refine List.sum_lt_sum _ _ (fun w hw => ?_) ⟨(-side.sign, b), ?_, ?_⟩
    · obtain ⟨g, hg, hle⟩ := hheld w hw
      rwa [hg]
    · rw [conflictRow_eq]
      simp
    · obtain ⟨g, hg, hlt⟩ := holding_of_breach hstuck.breach
      rwa [hg]

/-! ## Rows without a spare weight -/

/-- whichever weight is left out, the columns of the others may have any values -/
def Irredundant (p : Problem Rat Delta) (ws : List (Rat × Int)) : Prop :=
  ∀ w ∈ ws, ∀ y : Rat × Int → Rat, ∃ x : Int → Rat, p.Vanishes x ∧ ∀ w' ∈ ws, w' ≠ w → x w'.2 = y w'

/-- **No spare weights.** A row of the tableau is irredundant. -/
theorem irredundant_conflictRow (h : Sound p s) (hrow : s.tableau.get? b = some row) (side : Breach) :
    Irredundant p (conflictRow Arithmetic.exact row b side) := by
  intro w hw y
  have hnonbasic : ∀ e ∈ row.entries, e.1 ∉ s.tableau.keys :=
    fun e he => h.separate b row hrow e.1 (mem_keys_of_mem_entries he)
  have hvanishes : ∀ z : Int → Rat, p.Vanishes (s.tableau.fill z) :=
    fun z => (h.same Rat _).1 (Tableau.solves_fill h.separate z)
  -- the values asked for outside the basis, by column
  set z : Int → Rat := fun j => y (side.sign * (row.get? j).getD 0, j) with hz
  have hasked : ∀ e ∈ row.entries, z e.1 = y (side.sign * e.2, e.1) := by
    intro e he
    have hcoef : row.get? e.1 = some e.2 := get?_eq_some_iff.2 he
    simp only [hz, hcoef, Option.getD_some]
  rcases mem_conflictRow hw with ⟨e, he, h0, rfl⟩ | rfl
  · -- the column left out makes up for what the basic column asks for
    set t : Rat := (y (-side.sign, b) - Row.total (row.remove e.1) z) / e.2 with ht
    refine ⟨s.tableau.fill (Function.update z e.1 t), hvanishes _, fun w' hw' hne => ?_⟩
    have hothers : ∀ e' ∈ (row.remove e.1).entries, Function.update z e.1 t e'.1 = z e'.1 := by
      intro e' he'
      exact Function.update_of_ne (mem_keys_remove.1 (mem_keys_of_mem_entries he')).1 _ _
    rcases mem_conflictRow hw' with ⟨e', he', -, rfl⟩ | rfl
    · have hother : e'.1 ≠ e.1 := by
        intro hkey
        have hcoef : e'.2 = e.2 :=
          Option.some.inj ((get?_eq_some_iff.2 he').symm.trans (hkey ▸ get?_eq_some_iff.2 he))
        exact hne (by rw [hkey, hcoef])
      rw [Tableau.fill_of_nonbasic (hnonbasic e' he'), Function.update_of_ne hother, hasked e' he']
    · calc s.tableau.fill (Function.update z e.1 t) b
        _ = Row.total row (Function.update z e.1 t) := by rw [Tableau.fill, hrow]
        _ = e.2 • t + Row.total (row.remove e.1) z := by
          rw [Row.total_remove_of_get? (get?_eq_some_iff.2 he), Function.update_self, Row.total_congr hothers]
        _ = y (-side.sign, b) := by rw [ht, smul_eq_mul, mul_div_cancel₀ _ h0, sub_add_cancel]
  · refine ⟨s.tableau.fill z, hvanishes z, fun w' hw' hne => ?_⟩
    rcases mem_conflictRow hw' with ⟨e', he', -, rfl⟩ | rfl
    · rw [Tableau.fill_of_nonbasic (hnonbasic e' he'), hasked e' he']
    · exact absurd rfl hne

/-- **Endings.** A run that ends before its limit is feasible, and all basic columns are within their bounds, or it is
infeasible with a row that refutes the problem and has no weight to spare. -/
theorem Ending.outcome_cases {r : Run Rat Delta} {made : Int} (hend : Ending p s made r) (h : Sound p s) :
    r.values = some s.values ∧
      ((r.outcome = .feasible ∧ ∀ k ∈ s.tableau.keys, (p.span k).Contains (s.at k)) ∨
        (r.outcome = .infeasible ∧ ∃ ws, r.conflict = some ws ∧ Refutes p ws ∧ Irredundant p ws)) := by
  cases hend with
  | feasible hin => exact ⟨rfl, Or.inl ⟨rfl, hin⟩⟩
  | infeasible hstuck =>
    exact ⟨rfl, Or.inr ⟨rfl, _, rfl, refutes_conflictRow h hstuck, irredundant_conflictRow h hstuck.row_eq _⟩⟩

end Simplex

end Halfspace
