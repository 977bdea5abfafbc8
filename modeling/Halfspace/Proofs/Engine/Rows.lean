/-
Rows over exact numbers as linear combinations.

`Row.total row x` is the value `Σ c·x_j` of a row when column `j` has the value `x j`; the values may be rationals,
`Delta`s or any other vectors. Every operation on rows of a tableau is described by what it does to totals:
- `total_remove`, `total_put`: forgetting and replacing one coefficient;
- `total_addEntry`, `total_substitute`: adding a multiple of another row, zero sums dropped on the way;
- `eq_total_solveRow_iff`: a row, solved for one of its columns;
- `eq_total_turnRow_iff`: the row of a basic column, solved for another of its columns.
Which columns occur in a changed row does not depend on the arithmetic.
-/
import Halfspace.Proofs.DeltaOrder
import Halfspace.Proofs.Lookup
import Halfspace.Tableau
import Mathlib.Algebra.BigOperators.Group.List.Basic
import Mathlib.Algebra.Module.LinearMap.Defs

namespace Halfspace

open Keyed

variable {K V M N : Type} [AddCommGroup M] [Module Rat M] [AddCommGroup N] [Module Rat N]

namespace Row

/-! ## Columns of changed rows, in any arithmetic -/

theorem mem_keys_addEntry {A : Arithmetic K V} {c : K} {row : Row K} {e : Int × K} {k : Int}
    (h : k ∈ (Tableau.addEntry A c row e).keys) : k = e.1 ∨ k ∈ row.keys := by
  simp only [Tableau.addEntry] at h
  split_ifs at h
  · exact Or.inr (mem_keys_remove.1 h).2
  · exact mem_keys_put.1 h

theorem mem_keys_foldl_addEntry {A : Arithmetic K V} {c : K} {es : List (Int × K)} {row : Row K} {k : Int}
    (h : k ∈ (es.foldl (Tableau.addEntry A c) row).keys) : k ∈ es.map (·.1) ∨ k ∈ row.keys := by
  induction es generalizing row with
  | nil => exact Or.inr h
  | cons e rest ih =>
    rcases ih h with h | h
    · exact Or.inl (List.mem_cons_of_mem _ h)
    · rcases mem_keys_addEntry h with rfl | h
      · exact Or.inl List.mem_cons_self
      · exact Or.inr h

theorem mem_keys_substitute {A : Arithmetic K V} {j : Int} {meaning row : Row K} {k : Int}
    (h : k ∈ (Tableau.substitute A j meaning row).keys) : k ∈ meaning.keys ∨ (k ∈ row.keys ∧ k ≠ j) := by
  simp only [Tableau.substitute] at h
  split at h
  · rename_i hn
    refine Or.inr ⟨h, fun hk => ?_⟩
    exact get?_eq_none_iff.1 hn (hk ▸ h)
  · rcases mem_keys_foldl_addEntry h with h | h
    · exact Or.inl h
    · obtain ⟨hne, hmem⟩ := mem_keys_remove.1 h
      exact Or.inr ⟨hmem, hne⟩

theorem mem_keys_foldl_put {α : Type} {key : α → Int} {coef : α → K} {es : List α} {row : Row K} {k : Int} :
    k ∈ (es.foldl (fun r e => r.put (key e) (coef e)) row).keys ↔ k ∈ es.map key ∨ k ∈ row.keys := by
  induction es generalizing row with
  | nil => simp
  | cons e rest ih =>
    rw [List.foldl_cons, ih, mem_keys_put, List.map_cons, List.mem_cons]
    tauto

theorem mem_keys_turnRow {A : Arithmetic K V} {b : Int} {a : K} {rest : Row K} {k : Int} :
    k ∈ (Tableau.turnRow A b a rest).keys ↔ k = b ∨ k ∈ rest.keys := by
  unfold Tableau.turnRow
  rw [mem_keys_foldl_put, mem_keys_put, or_comm]
  simp [keys, Keyed.empty]

/-- a row with a coefficient other than null for `b` can be solved for `b`, which leaves the other columns -/
theorem solveRow_ok {A : Arithmetic K V} {row : Row K} {b : Int} {p : K} (hp : row.get? b = some p)
    (h0 : A.isNull p = false) :
    Tableau.solveRow A row b = .ok ((row.remove b).mapValues fun c => A.div (A.neg c) p) := by
  simp [Tableau.solveRow, hp, h0]

theorem mem_keys_solveRow {A : Arithmetic K V} {row : Row K} {b : Int} {p : K} {k : Int} :
    k ∈ ((row.remove b).mapValues fun c => A.div (A.neg c) p).keys ↔ k ≠ b ∧ k ∈ row.keys := by
  rw [mem_keys_mapValues, mem_keys_remove]

/-! ## Values of columns -/

def total (row : Row Rat) (x : Int → M) : M := (row.entries.map fun e => e.2 • x e.1).sum

theorem total_congr {row : Row Rat} {x y : Int → M} (h : ∀ e ∈ row.entries, x e.1 = y e.1) :
    total row x = total row y :=
  congrArg List.sum (List.map_congr_left fun e he => by rw [h e he])

theorem map_total (f : M →ₗ[Rat] N) (row : Row Rat) (x : Int → M) : f (total row x) = total row fun j => f (x j) := by
  simp only [total, map_list_sum, List.map_map]
  exact congrArg List.sum (List.map_congr_left fun e _ => map_smul f e.2 (x e.1))

theorem total_sub (row : Row Rat) (x y : Int → M) :
    total row x - total row y = (row.entries.map fun e => e.2 • (x e.1 - y e.1)).sum := by
  simp only [total]
  induction row.entries with
  | nil => simp
  | cons e rest ih =>
    simp only [List.map_cons, List.sum_cons]
    rw [← ih, smul_sub]
    abel

/-! ## Changes of one coefficient -/

theorem filter_of_absent {k : Int} {es : List (Int × Rat)} (h : k ∉ es.map (·.1)) :
    es.filter (·.1 != k) = es := by
  refine List.filter_eq_self.2 fun e he => ?_
  have hne : e.1 ≠ k := fun hk => h (List.mem_map.2 ⟨e, he, hk⟩)
  simpa using hne

theorem sum_filter_ne (k : Int) {es : List (Int × Rat)} (hd : (es.map (·.1)).Nodup) (x : Int → M) :
    (es.map fun e => e.2 • x e.1).sum =
      ((valueOf k es).getD 0) • x k + ((es.filter (·.1 != k)).map fun e => e.2 • x e.1).sum := by
  induction es with
  | nil => simp [valueOf]
  | cons e rest ih =>
    obtain ⟨hhead, hrest⟩ := List.nodup_cons.1 hd
    simp only [valueOf]
    split_ifs with h
    · subst h
      rw [List.filter_cons_of_neg (by simp), filter_of_absent hhead]
      simp
    · have hkept : (e :: rest).filter (·.1 != k) = e :: rest.filter (·.1 != k) :=
        List.filter_cons_of_pos (by simpa using Ne.symm h)
      rw [hkept, List.map_cons, List.sum_cons, List.map_cons, List.sum_cons, ih hrest]
      abel

theorem total_remove (row : Row Rat) (j : Int) (x : Int → M) :
    total row x = ((row.get? j).getD 0) • x j + total (row.remove j) x :=
  sum_filter_ne j row.distinct x

theorem total_remove_of_get? {row : Row Rat} {j : Int} {c : Rat} (h : row.get? j = some c) (x : Int → M) :
    total row x = c • x j + total (row.remove j) x := by
  rw [total_remove row j x, h]
  rfl

theorem total_remove_of_absent {row : Row Rat} {j : Int} (h : row.get? j = none) (x : Int → M) :
    total (row.remove j) x = total row x := by
  rw [total_remove row j x, h]
  simp

theorem sum_putEntry (k : Int) (c : Rat) {es : List (Int × Rat)} (hd : (es.map (·.1)).Nodup) (x : Int → M) :
    ((putEntry k c es).map fun e => e.2 • x e.1).sum =
      c • x k + ((es.filter (·.1 != k)).map fun e => e.2 • x e.1).sum := by
  induction es with
  | nil => simp [putEntry]
  | cons e rest ih =>
    obtain ⟨hhead, hrest⟩ := List.nodup_cons.1 hd
    simp only [putEntry]
    split_ifs with h
    · subst h
      rw [List.filter_cons_of_neg (by simp), filter_of_absent hhead]
      simp
    · have hkept : (e :: rest).filter (·.1 != k) = e :: rest.filter (·.1 != k) :=
        List.filter_cons_of_pos (by simpa using h)
      rw [hkept, List.map_cons, List.sum_cons, List.map_cons, List.sum_cons, ih hrest]
      abel

theorem total_put (row : Row Rat) (j : Int) (c : Rat) (x : Int → M) :
    total (row.put j c) x = c • x j + total (row.remove j) x :=
  sum_putEntry j c row.distinct x

theorem total_mapValues_smul (k : Rat) {f : Rat → Rat} (hf : ∀ c, f c = k * c) (row : Row Rat) (x : Int → M) :
    total (row.mapValues f) x = k • total row x := by
  simp only [total, mapValues, List.map_map, List.smul_sum]
  refine congrArg List.sum (List.map_congr_left fun e _ => ?_)
  simp [hf, mul_smul]

/-! ## Multiples of rows -/

theorem total_addEntry (c : Rat) (row : Row Rat) (e : Int × Rat) (x : Int → M) :
    total (Tableau.addEntry Arithmetic.exact c row e) x = total row x + (c * e.2) • x e.1 := by
  rw [total_remove row e.1 x]
  simp only [Tableau.addEntry, Arithmetic.exact_null, Arithmetic.exact_add, Arithmetic.exact_mul,
    Arithmetic.exact_isZero, decide_eq_true_eq]
  split_ifs with h
  · rw [add_right_comm, ← add_smul, h]
    simp
  · rw [total_put, add_smul]
    abel

theorem total_foldl_addEntry (c : Rat) (es : List (Int × Rat)) (row : Row Rat) (x : Int → M) :
    total (es.foldl (Tableau.addEntry Arithmetic.exact c) row) x =
      total row x + c • (es.map fun e => e.2 • x e.1).sum := by
  induction es generalizing row with
  | nil => simp
  | cons e rest ih =>
    rw [List.foldl_cons, ih, total_addEntry, List.map_cons, List.sum_cons, smul_add, mul_smul, add_assoc]

/-- where a column has the value of its meaning, replacing it by the meaning keeps a row's value -/
theorem total_substitute {j : Int} {meaning : Row Rat} {x : Int → M} (hj : x j = total meaning x) (row : Row Rat) :
    total (Tableau.substitute Arithmetic.exact j meaning row) x = total row x := by
  simp only [Tableau.substitute]
  split
  · rfl
  · rename_i c hc
    rw [total_foldl_addEntry, total_remove_of_get? hc x, hj, add_comm]
    rfl

/-! ## Rows solved for a column -/

/-- a row solved for `b` equals `b` exactly where the row vanishes -/
theorem eq_total_solveRow_iff {row : Row Rat} {b : Int} {p : Rat} (hp : row.get? b = some p) (h0 : p ≠ 0)
    (x : Int → M) : x b = total ((row.remove b).mapValues fun c => -c / p) x ↔ total row x = 0 := by
  have hf : ∀ c : Rat, -c / p = -p⁻¹ * c := fun c => by ring
  rw [total_mapValues_smul (-p⁻¹) hf, total_remove_of_get? hp x]
  constructor
  · intro h
    rw [h, smul_smul, mul_neg, mul_inv_cancel₀ h0, neg_one_smul, neg_add_cancel]
  · intro h
    have hx : p • x b = -total (row.remove b) x := eq_neg_of_add_eq_zero_left h
    rw [neg_smul, ← smul_neg, ← hx, smul_smul, inv_mul_cancel₀ h0, one_smul]

theorem total_foldl_put {α : Type} {key : α → Int} {coef : α → Rat} {es : List α} {row : Row Rat}
    (hd : (es.map key).Nodup) (hnew : ∀ e ∈ es, key e ∉ row.keys) (x : Int → M) :
    total (es.foldl (fun r e => r.put (key e) (coef e)) row) x =
      total row x + (es.map fun e => coef e • x (key e)).sum := by
  induction es generalizing row with
  | nil => simp
  | cons e rest ih =>
    obtain ⟨hhead, hrest⟩ := List.nodup_cons.1 hd
    have hnew' : ∀ e' ∈ rest, key e' ∉ (row.put (key e) (coef e)).keys := by
      intro e' he' hk
      rcases mem_keys_put.1 hk with h | h
      · exact hhead (List.mem_map.2 ⟨e', he', h⟩)
      · exact hnew e' (List.mem_cons_of_mem _ he') h
    have habsent : row.get? (key e) = none := get?_eq_none_iff.2 (hnew e List.mem_cons_self)
    rw [List.foldl_cons, ih hrest hnew', total_put, total_remove_of_absent habsent, List.map_cons, List.sum_cons]
    abel

theorem total_turnRow {b : Int} {a : Rat} {rest : Row Rat} (hb : b ∉ rest.keys) (x : Int → M) :
    total (Tableau.turnRow Arithmetic.exact b a rest) x = a⁻¹ • x b - a⁻¹ • total rest x := by
  have hnew : ∀ e ∈ rest.entries, e.1 ∉ (Keyed.empty.put b (1 / a)).keys := by
    intro e he hk
    rcases mem_keys_put.1 hk with h | h
    · exact hb (h ▸ mem_keys_of_mem_entries he)
    · simp [keys, Keyed.empty] at h
  have hsum : (rest.entries.map fun e => (-e.2 / a) • x e.1).sum = (-a⁻¹) • total rest x := by
    rw [total, List.smul_sum, List.map_map]
    refine congrArg List.sum (List.map_congr_left fun e _ => ?_)
    have hcoef : -e.2 / a = -a⁻¹ * e.2 := by ring
    rw [hcoef, mul_smul]
    rfl
  simp only [Tableau.turnRow, Arithmetic.exact_div, Arithmetic.exact_neg, Arithmetic.exact_one]
  rw [total_foldl_put rest.distinct hnew x, hsum, total_put, neg_smul, sub_eq_add_neg, one_div]
  simp [total, Keyed.empty, Keyed.remove]

/-- the turned row equals the column it is solved for exactly where the row it came from equals its own -/
theorem eq_total_turnRow_iff {b j : Int} {a : Rat} {row : Row Rat} (hj : row.get? j = some a) (h0 : a ≠ 0)
    (hb : b ∉ row.keys) (x : Int → M) :
    x j = total (Tableau.turnRow Arithmetic.exact b a (row.remove j)) x ↔ x b = total row x := by
  have hb' : b ∉ (row.remove j).keys := fun h => hb (mem_keys_remove.1 h).2
  rw [total_turnRow hb', total_remove_of_get? hj x, ← smul_sub]
  constructor
  · intro h
    rw [h, smul_smul, mul_inv_cancel₀ h0, one_smul, sub_add_cancel]
  · intro h
    rw [h, add_sub_cancel_right, smul_smul, inv_mul_cancel₀ h0, one_smul]

end Row

end Halfspace
