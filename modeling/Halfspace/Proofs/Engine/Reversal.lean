/-
Exchanges undone.

A separate tableau whose rows keep no zero coefficient says nothing twice: it is determined by its basis and by its
solutions, since the coefficients of a row are the values of its basic column at the solutions that are one in a single
column outside the basis. An exchange keeps the solutions and brings in no zero, so that exchanging the two columns back
leads to the tableau it started from, whatever entries appeared, changed or cancelled on the way.
- `zeroFree_pivot`: an exchange leaves no zero coefficient behind;
- `alike_of_solves`: tableaux with the same basis and the same solutions have the same coefficients;
- `exchanged_pivot`: what one exchange does;
- `pivot_undone`: all of it, and the way back.
-/
import Halfspace.Proofs.Engine.Pivot

namespace Halfspace

open Keyed

/-! ## Rows without zeros -/

namespace Row

variable {row : Row Rat}

def ZeroFree (row : Row Rat) : Prop := ∀ j c, row.get? j = some c → c ≠ 0

theorem zeroFree_empty : ZeroFree (Keyed.empty : Row Rat) := nofun

theorem ZeroFree.remove (h : row.ZeroFree) (j : Int) : ZeroFree (row.remove j) := by
  intro k c hk
  rw [get?_remove] at hk
  split_ifs at hk
  exact h k c hk

theorem ZeroFree.put (h : row.ZeroFree) (j : Int) {c : Rat} (hc : c ≠ 0) : ZeroFree (row.put j c) := by
  intro k d hk
  rw [get?_put] at hk
  split_ifs at hk
  · exact Option.some.inj hk ▸ hc
  · exact h k d hk

theorem ZeroFree.foldl_put {α : Type} {key : α → Int} {coef : α → Rat} {es : List α} (h : row.ZeroFree)
    (hes : ∀ e ∈ es, coef e ≠ 0) : ZeroFree (es.foldl (fun r e => r.put (key e) (coef e)) row) := by
  induction es generalizing row with
  | nil => exact h
  | cons e rest ih =>
    obtain ⟨hhead, hrest⟩ := List.forall_mem_cons.1 hes
    exact ih (h.put (key e) hhead) hrest

theorem ZeroFree.addEntry (h : row.ZeroFree) (c : Rat) (e : Int × Rat) :
    ZeroFree (Tableau.addEntry Arithmetic.exact c row e) := by
  simp only [Tableau.addEntry, Arithmetic.exact_isZero, decide_eq_true_eq]
  split_ifs with hsum
  · exact h.remove e.1
  · exact h.put e.1 hsum

theorem ZeroFree.foldl_addEntry {es : List (Int × Rat)} (h : row.ZeroFree) (c : Rat) :
    ZeroFree (es.foldl (Tableau.addEntry Arithmetic.exact c) row) := by
  induction es generalizing row with
  | nil => exact h
  | cons e rest ih => exact ih (h.addEntry c e)

theorem ZeroFree.substitute (h : row.ZeroFree) (j : Int) (meaning : Row Rat) :
    ZeroFree (Tableau.substitute Arithmetic.exact j meaning row) := by
  simp only [Tableau.substitute]
  split
  · exact h
  · exact (h.remove j).foldl_addEntry _

theorem ZeroFree.turnRow (h : row.ZeroFree) (b : Int) {a : Rat} (h0 : a ≠ 0) :
    ZeroFree (Tableau.turnRow Arithmetic.exact b a row) := by
  refine (zeroFree_empty.put b (one_div_ne_zero h0)).foldl_put ?_
  intro e he
  exact div_ne_zero (neg_ne_zero.2 (h e.1 e.2 (get?_eq_some_iff.2 he))) h0

/-- a row without zeros is determined by its coefficients, those of absent columns read as zero -/
theorem ZeroFree.get?_eq {row' : Row Rat} (h : row.ZeroFree) (h' : row'.ZeroFree) {j : Int}
    (heq : (row.get? j).getD 0 = (row'.get? j).getD 0) : row.get? j = row'.get? j := by
  cases hc : row.get? j with
  | none =>
    cases hd : row'.get? j with
    | none => rfl
    | some d =>
      rw [hc, hd] at heq
      exact absurd heq.symm (h' j d hd)
  | some c =>
    cases hd : row'.get? j with
    | none =>
      rw [hc, hd] at heq
      exact absurd heq (h j c hc)
    | some d =>
      rw [hc, hd] at heq
      exact congrArg some heq

/-- the coefficient of a column is the value of the row where that column is one and the others are zero -/
theorem total_single (row : Row Rat) (j : Int) : total row (Pi.single j 1) = (row.get? j).getD 0 := by
  have hrest : total (row.remove j) (Pi.single j (1 : Rat)) = 0 := by
    refine List.sum_eq_zero ?_
    intro q hq
    obtain ⟨e, he, rfl⟩ := List.mem_map.1 hq
    have hne : e.1 ≠ j := (mem_keys_remove.1 (mem_keys_of_mem_entries he)).1
    rw [Pi.single_eq_of_ne hne, smul_zero]
  rw [total_remove row j, hrest, Pi.single_eq_same, smul_eq_mul, mul_one, add_zero]

end Row

namespace Tableau

variable {t t' : Tableau Rat} {b j : Int} {row : Row Rat}

/-! ## Tableaux without zeros -/

def ZeroFree (t : Tableau Rat) : Prop := ∀ b row, t.get? b = some row → row.ZeroFree

/-- the same basis, with the same coefficients in every row, whatever the order of insertion -/
def Alike (t t' : Tableau Rat) : Prop := ∀ b, (t.get? b).map (·.get?) = (t'.get? b).map (·.get?)

theorem zeroFree_pivot {a : Rat} (hz : ZeroFree t) (hb : t.get? b = some row) (hj : row.get? j = some a)
    (hpivot : pivot Arithmetic.exact t b j = .ok t') : ZeroFree t' := by
  have h0 : a ≠ 0 := hz b row hb j a hj
  intro k row' hk
  rw [get?_pivot hb hj (by simpa using h0) hpivot] at hk
  split_ifs at hk
  · exact Option.some.inj hk ▸ ((hz b row hb).remove j).turnRow b h0
  · obtain ⟨old, hold, rfl⟩ := Option.map_eq_some_iff.1 hk
    exact (hz k old hold).substitute j _

/-- **Tableaux are determined** by their basis and their solutions, once no zero is kept. -/
theorem alike_of_solves (hs : Separate t) (hs' : Separate t') (hz : ZeroFree t) (hz' : ZeroFree t')
    (hkeys : ∀ b, b ∈ t'.keys ↔ b ∈ t.keys) (hsolves : ∀ x : Int → Rat, Solves t x → Solves t' x) : Alike t' t := by
  intro b
  cases hb : t.get? b with
  | none =>
    have habsent : b ∉ t'.keys := fun h => get?_eq_none_iff.1 hb ((hkeys b).1 h)
    rw [get?_eq_none_iff.2 habsent]
  | some row =>
    obtain ⟨row', hb'⟩ := mem_keys_iff.1 ((hkeys b).2 (mem_keys_iff.2 ⟨row, hb⟩))
    rw [hb', Option.map_some, Option.map_some]
    refine congrArg some (funext fun j => (hz' b row' hb').get?_eq (hz b row hb) ?_)
    -- the solution that is one in column `j`, as far as the basis leaves it free
    set x : Int → Rat := t.fill (Pi.single j 1) with hx
    have hfree : ∀ e ∈ row'.entries, x e.1 = (Pi.single j 1 : Int → Rat) e.1 := by
      intro e he
      have hnonbasic : e.1 ∉ t.keys := fun h =>
        hs' b row' hb' e.1 (mem_keys_of_mem_entries he) ((hkeys e.1).2 h)
      exact fill_of_nonbasic hnonbasic _
    calc (row'.get? j).getD 0
      _ = Row.total row' (Pi.single j 1) := (Row.total_single row' j).symm
      _ = Row.total row' x := (Row.total_congr hfree).symm
      _ = x b := (hsolves x (solves_fill hs _) b row' hb').symm
      _ = Row.total row (Pi.single j 1) := by rw [hx, fill, hb]
      _ = (row.get? j).getD 0 := Row.total_single row j

/-! ## One exchange -/

/-- what an exchange of the basic column `b` with column `j` makes of a tableau -/
structure Exchanged (t t' : Tableau Rat) (b j : Int) : Prop where
  same : ∀ {M : Type} [AddCommGroup M] [Module Rat M] (x : Int → M), Solves t' x ↔ Solves t x
  basis : ∀ k, k ∈ t'.keys ↔ k = j ∨ (k ≠ b ∧ k ∈ t.keys)
  zeroFree : ZeroFree t'
  separate : Separate t'

/-- **One exchange.** It can be made wherever the row of `b` has a coefficient for `j`, and the row of `j` then has one
for `b`. -/
theorem exchanged_pivot (hs : Separate t) (hz : ZeroFree t) (hb : t.get? b = some row) (hj : j ∈ row.keys) :
    ∃ t' row', pivot Arithmetic.exact t b j = .ok t' ∧ Exchanged t t' b j ∧
      t'.get? j = some row' ∧ b ∈ row'.keys := by
  obtain ⟨a, ha⟩ := mem_keys_iff.1 hj
  have h0 : a ≠ 0 := hz b row hb j a ha
  have hnull : Arithmetic.exact.isNull a = false := by simpa using h0
  obtain ⟨t', hpivot, hrows⟩ := pivot_rows hb ha hnull
  refine ⟨t', turnRow Arithmetic.exact b a (row.remove j), hpivot, ?_, ?_, ?_⟩
  · exact {
      same := fun x => solves_pivot_iff hs hb ha h0 hpivot x
      basis := mem_keys_pivot hb ha hnull hpivot
      zeroFree := zeroFree_pivot hz hb ha hpivot
      separate := separate_pivot hb ha hnull hpivot hs }
  · rw [hrows, if_pos rfl]
  · exact Row.mem_keys_turnRow.2 (Or.inl rfl)

/-- **Exchanges undone.** In a separate tableau without zeros a basic column can be exchanged with any column of its
row. This keeps the solutions, puts the one column in the place of the other, and leaves the tableau separate and
without zeros; exchanging the columns back restores the coefficients of every row. -/
theorem pivot_undone (hs : Separate t) (hz : ZeroFree t) (hb : t.get? b = some row) (hj : j ∈ row.keys) :
    ∃ t' t'', pivot Arithmetic.exact t b j = .ok t' ∧ Exchanged t t' b j ∧
      pivot Arithmetic.exact t' j b = .ok t'' ∧ Alike t'' t := by
  obtain ⟨t', row', hpivot, hthere, hrow', hbrow'⟩ := exchanged_pivot hs hz hb hj
  obtain ⟨t'', -, hback, hhere, -, -⟩ := exchanged_pivot hthere.separate hthere.zeroFree hrow' hbrow'
  have hbt : b ∈ t.keys := mem_keys_iff.2 ⟨row, hb⟩
  have hjt : j ∉ t.keys := hs b row hb j hj
  have hkeys : ∀ k, k ∈ t''.keys ↔ k ∈ t.keys := by
    intro k
    rw [hhere.basis, hthere.basis]
    by_cases hkb : k = b
    · simp [hkb, hbt]
    · by_cases hkj : k = j
      · have hjb : j ≠ b := hkj ▸ hkb
        simp [hkj, hjt, hjb]
      · simp [hkb, hkj]
  refine ⟨t', t'', hpivot, hthere, hback, ?_⟩
  apply alike_of_solves hs hhere.separate hz hhere.zeroFree hkeys
  intro x hx
  exact (hhere.same x).2 ((hthere.same x).2 hx)

/-- `x₃ = x₀ + 2x₁`, `x₄ = 2x₀ + 4x₁`, `x₅ = 3x₁` and `x₆ = 5x₀` -/
def woven : Tableau Rat :=
  ofList [(3, ofList [(0, 1), (1, 2)]), (4, ofList [(0, 2), (1, 4)]), (5, ofList [(1, 3)]), (6, ofList [(0, 5)])]

theorem rows_woven {k : Int} {r : Row Rat} (h : woven.get? k = some r) :
    r ∈ [ofList [(0, 1), (1, 2)], ofList [(0, 2), (1, 4)], ofList [(1, 3)], ofList [(0, 5)]] := by
  have hmem := List.mem_map_of_mem (f := (·.2)) (get?_eq_some_iff.1 h)
  exact hmem

/-- on the way the second row loses a column, the third gains one, and the last is left alone -/
theorem woven_is_restored : ∃ t' t'', pivot Arithmetic.exact woven 3 1 = .ok t' ∧ Exchanged woven t' 3 1 ∧
    (t'.get? 4).map (·.entries) = some [(3, 2)] ∧ (t'.get? 5).map (·.entries) = some [(3, 3 / 2), (0, -3 / 2)] ∧
    pivot Arithmetic.exact t' 1 3 = .ok t'' ∧ Alike t'' woven := by
  have hs : Separate woven := by
    intro k r hr
    have hall : ∀ r ∈ [ofList [(0, (1 : Rat)), (1, 2)], ofList [(0, 2), (1, 4)], ofList [(1, 3)], ofList [(0, 5)]],
        ∀ i ∈ r.keys, i ∉ woven.keys := by decide +kernel
    exact hall r (rows_woven hr)
  have hz : ZeroFree woven := by
    intro k r hr i c hc
    have hall : ∀ r ∈ [ofList [(0, (1 : Rat)), (1, 2)], ofList [(0, 2), (1, 4)], ofList [(1, 3)], ofList [(0, 5)]],
        ∀ e ∈ r.entries, e.2 ≠ 0 := by decide +kernel
    exact hall r (rows_woven hr) (i, c) (get?_eq_some_iff.1 hc)
  have hrow : woven.get? 3 = some (ofList [(0, 1), (1, 2)]) := rfl
  have hcolumn : 1 ∈ (ofList [(0, (1 : Rat)), (1, 2)]).keys := by decide +kernel
  obtain ⟨t', t'', hpivot, hexchanged, hback, halike⟩ := pivot_undone hs hz hrow hcolumn
  have hrows : (pivot Arithmetic.exact woven 3 1).map (fun t' => (t'.get? 4).map (·.entries)) =
      .ok (some [(3, 2)]) := by decide +kernel
  have hrows' : (pivot Arithmetic.exact woven 3 1).map (fun t' => (t'.get? 5).map (·.entries)) =
      .ok (some [(3, 3 / 2), (0, -3 / 2)]) := by decide +kernel
  rw [hpivot] at hrows hrows'
  exact ⟨t', t'', hpivot, hexchanged, Except.ok.inj hrows, Except.ok.inj hrows', hback, halike⟩

end Tableau

end Halfspace
