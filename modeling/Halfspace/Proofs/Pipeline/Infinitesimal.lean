/-
From solutions with an infinitesimal part to rational ones.

A column that lies within its bounds over `Delta` keeps them for every number up to the one that `Epsilon.choose`
returns, and that number is positive. Strict bounds are bounds with an infinitesimal part, so that at a positive number
they are kept strictly. Nothing larger than its double would do: the limit that a gap sets is where it turns negative.
- `choose_pos`, `admits_of_le_choose`: the chosen number;
- `exists_not_admits_of_foldl_lt`: beyond the limits some column fails;
- `choose_half_of_largest`: the chosen number is half the largest one;
- `contains_valueAt`: a value within the bounds of an interval becomes a number inside the interval.
-/
import Halfspace.Epsilon
import Halfspace.Proofs.Registry.Intervals

namespace Halfspace

namespace Epsilon

/-- at `t` in the place of the infinitesimal, a column keeps its bounds -/
def Admits (t : Rat) (column : Delta × Span Delta) : Prop :=
  (∀ l, column.2.low = some l → l.valueAt t ≤ column.1.valueAt t) ∧
    ∀ u, column.2.upper = some u → column.1.valueAt t ≤ u.valueAt t

/-! ## One gap -/

theorem restrict_le (d : Rat) (gap : Delta) : restrict d gap ≤ d := by
  unfold restrict
  split_ifs with h
  · simp only
    split_ifs with hlt
    · exact hlt.le
    · exact le_rfl
  · exact le_rfl

theorem restrict_pos {d : Rat} (hd : 0 < d) (gap : Delta) : 0 < restrict d gap := by
  unfold restrict
  split_ifs with h
  · have hlimit : 0 < gap.base / -gap.slope := div_pos h.1 (neg_pos.2 h.2)
    simp only
    split_ifs
    · exact hlimit
    · exact hd
  · exact hd

/-- a gap that is not negative stays so up to its limit -/
theorem valueAt_nonneg {d t : Rat} {gap : Delta} (hgap : 0 ≤ gap) (h0 : 0 ≤ t) (ht : t ≤ restrict d gap) :
    0 ≤ gap.valueAt t := by
  unfold Delta.valueAt
  rcases (Delta.le_iff 0 gap).1 hgap with hbase | ⟨hbase, hslope⟩
  · rw [Delta.base_zero] at hbase
    by_cases hs : gap.slope < 0
    · have hlimit : t ≤ gap.base / -gap.slope := by
        unfold restrict at ht
        rw [if_pos ⟨hbase, hs⟩] at ht
        simp only at ht
        split_ifs at ht with hlt
        · exact ht
        · exact ht.trans (not_lt.1 hlt)
      have := (le_div_iff₀ (neg_pos.2 hs)).1 hlimit
      linarith
    · have := mul_nonneg h0 (not_lt.1 hs)
      linarith
  · rw [Delta.base_zero] at hbase
    rw [Delta.slope_zero] at hslope
    rw [← hbase, zero_add]
    exact mul_nonneg h0 hslope

/-! ## All columns -/

theorem restrictColumn_le (d : Rat) (column : Delta × Span Delta) : restrictColumn d column ≤ d := by
  unfold restrictColumn
  cases column.2.low <;> cases column.2.upper
  · exact le_rfl
  · exact restrict_le _ _
  · exact restrict_le _ _
  · exact (restrict_le _ _).trans (restrict_le _ _)

theorem restrictColumn_pos {d : Rat} (hd : 0 < d) (column : Delta × Span Delta) : 0 < restrictColumn d column := by
  unfold restrictColumn
  cases column.2.low <;> cases column.2.upper
  · exact hd
  · exact restrict_pos hd _
  · exact restrict_pos hd _
  · exact restrict_pos (restrict_pos hd _) _

theorem admits_of_le_restrictColumn {d t : Rat} {column : Delta × Span Delta} (hc : column.2.Contains column.1)
    (h0 : 0 ≤ t) (ht : t ≤ restrictColumn d column) : Admits t column := by
  obtain ⟨value, low, upper⟩ := column
  constructor
  · intro l hl
    simp only at hl
    subst hl
    have hlow : t ≤ restrictLow d value l := by
      refine ht.trans ?_
      unfold restrictColumn
      cases upper
      · exact le_rfl
      · exact restrict_le _ _
    have hgap := valueAt_nonneg (sub_nonneg.2 (hc.1 l rfl)) h0 hlow
    rwa [Delta.valueAt_sub, sub_nonneg] at hgap
  · intro u hu
    simp only at hu
    subst hu
    have hgap := valueAt_nonneg (sub_nonneg.2 (hc.2 u rfl)) h0 ht
    rwa [Delta.valueAt_sub, sub_nonneg] at hgap

theorem foldl_restrictColumn_le (columns : List (Delta × Span Delta)) (d : Rat) :
    columns.foldl restrictColumn d ≤ d := by
  induction columns generalizing d with
  | nil => exact le_rfl
  | cons column rest ih => exact (ih _).trans (restrictColumn_le d column)

theorem foldl_restrictColumn_pos (columns : List (Delta × Span Delta)) {d : Rat} (hd : 0 < d) :
    0 < columns.foldl restrictColumn d := by
  induction columns generalizing d with
  | nil => exact hd
  | cons column rest ih => exact ih (restrictColumn_pos hd column)

theorem admits_of_le_foldl {columns : List (Delta × Span Delta)} (hc : ∀ column ∈ columns, column.2.Contains column.1)
    {d t : Rat} (h0 : 0 ≤ t) (ht : t ≤ columns.foldl restrictColumn d) : ∀ column ∈ columns, Admits t column := by
  induction columns generalizing d with
  | nil => simp
  | cons column rest ih =>
    obtain ⟨hhead, hrest⟩ := List.forall_mem_cons.1 hc
    refine List.forall_mem_cons.2 ⟨?_, ih hrest ht⟩
    exact admits_of_le_restrictColumn hhead h0 (ht.trans (foldl_restrictColumn_le rest _))

/-- **The chosen number** is positive. -/
theorem choose_pos (columns : List (Delta × Span Delta)) : 0 < choose columns :=
  half_pos (foldl_restrictColumn_pos columns one_pos)

/-- up to the chosen number, columns within their bounds keep them -/
theorem admits_of_le_choose {columns : List (Delta × Span Delta)}
    (hc : ∀ column ∈ columns, column.2.Contains column.1) {t : Rat} (h0 : 0 ≤ t) (ht : t ≤ choose columns) :
    ∀ column ∈ columns, Admits t column := by
  have hpos : 0 < columns.foldl restrictColumn 1 := foldl_restrictColumn_pos columns one_pos
  exact admits_of_le_foldl hc h0 (ht.trans (half_le_self hpos.le))

/-! ## Beyond the limits -/

/-- a gap that lowers a number is negative between its limit and that number -/
theorem valueAt_neg_of_restrict_lt {d t : Rat} {gap : Delta} (ht : restrict d gap < t) (htd : t ≤ d) :
    gap.valueAt t < 0 := by
  unfold restrict at ht
  split_ifs at ht with h
  · have hlimit : gap.base / -gap.slope < t := by
      simp only at ht
      split_ifs at ht
      · exact ht
      · exact absurd ht (not_lt.2 htd)
    have hbase : gap.base < t * -gap.slope := (div_lt_iff₀ (neg_pos.2 h.2)).1 hlimit
    unfold Delta.valueAt
    linarith
  · exact absurd ht (not_lt.2 htd)

theorem not_admits_of_restrictColumn_lt {d t : Rat} {column : Delta × Span Delta} (ht : restrictColumn d column < t)
    (htd : t ≤ d) : ¬Admits t column := by
  obtain ⟨value, low, upper⟩ := column
  intro hadmits
  -- the low bound lowers the number first, and the upper bound what it leaves
  by_cases hlow : low.elim d (restrictLow d value) < t
  · cases low with
    | none => exact absurd hlow (not_lt.2 htd)
    | some l =>
      have hgap : (value - l).valueAt t < 0 := valueAt_neg_of_restrict_lt hlow htd
      have hkept : l.valueAt t ≤ value.valueAt t := hadmits.1 l rfl
      rw [Delta.valueAt_sub] at hgap
      linarith
  · cases upper with
    | none => exact hlow ht
    | some u =>
      have hgap : (u - value).valueAt t < 0 := valueAt_neg_of_restrict_lt ht (not_lt.1 hlow)
      have hkept : value.valueAt t ≤ u.valueAt t := hadmits.2 u rfl
      rw [Delta.valueAt_sub] at hgap
      linarith

/-- **Beyond the limits** of all columns some column does not keep its bounds. -/
theorem exists_not_admits_of_foldl_lt {columns : List (Delta × Span Delta)} {d t : Rat}
    (ht : columns.foldl restrictColumn d < t) (htd : t ≤ d) : ∃ column ∈ columns, ¬Admits t column := by
  induction columns generalizing d with
  | nil => exact absurd ht (not_lt.2 htd)
  | cons column rest ih =>
    by_cases hhead : restrictColumn d column < t
    · exact ⟨column, List.mem_cons_self, not_admits_of_restrictColumn_lt hhead htd⟩
    · obtain ⟨other, hmem, hfails⟩ := ih ht (not_lt.1 hhead)
      exact ⟨other, List.mem_cons_of_mem _ hmem, hfails⟩

/-! ## Strict bounds -/

theorem lt_valueAt_of_lowBound {c d : Rat} {b value : Delta} (hd : 0 < d)
    (hb : Arithmetic.exact.lowBound c true = .ok b) (hkept : b.valueAt d ≤ value.valueAt d) : c < value.valueAt d := by
  have hvalue : b.valueAt d = c + d * 1 := by rw [← Except.ok.inj hb]; rfl
  linarith

theorem valueAt_lt_of_upperBound {c d : Rat} {b value : Delta} (hd : 0 < d)
    (hb : Arithmetic.exact.upperBound c true = .ok b) (hkept : value.valueAt d ≤ b.valueAt d) :
    value.valueAt d < c := by
  have hvalue : b.valueAt d = c + d * -1 := by rw [← Except.ok.inj hb]; rfl
  linarith

/-! ## The largest number -/

/-- **Half the largest number.** The chosen number is positive and at most a half. Up to its double every column keeps
its bounds, between its double and one some column does not, and at the number itself strict bounds are kept
strictly. -/
theorem choose_half_of_largest {columns : List (Delta × Span Delta)}
    (hc : ∀ column ∈ columns, column.2.Contains column.1) :
    (0 < choose columns ∧ choose columns ≤ 1 / 2) ∧
      (∀ t, 0 < t → t ≤ 2 * choose columns → ∀ column ∈ columns, Admits t column) ∧
      (∀ t, 2 * choose columns < t → t ≤ 1 → ∃ column ∈ columns, ¬Admits t column) ∧
      ∀ column ∈ columns, ∀ c b,
        (Arithmetic.exact.lowBound c true = .ok b → column.2.low = some b →
          c < column.1.valueAt (choose columns)) ∧
        (Arithmetic.exact.upperBound c true = .ok b → column.2.upper = some b →
          column.1.valueAt (choose columns) < c) := by
  have hpos : 0 < choose columns := choose_pos columns
  have hdouble : 2 * choose columns = columns.foldl restrictColumn 1 := mul_div_cancel₀ _ two_ne_zero
  have hle : columns.foldl restrictColumn 1 ≤ 1 := foldl_restrictColumn_le columns 1
  refine ⟨⟨hpos, by linarith⟩, ?_, ?_, ?_⟩
  · intro t h0 ht
    rw [hdouble] at ht
    exact admits_of_le_foldl hc h0.le ht
  · intro t ht h1
    rw [hdouble] at ht
    exact exists_not_admits_of_foldl_lt ht h1
  · intro column hmem c b
    have hadmits : Admits (choose columns) column := admits_of_le_choose hc hpos.le le_rfl column hmem
    refine ⟨?_, ?_⟩
    · intro hb hlow
      exact lt_valueAt_of_lowBound hpos hb (hadmits.1 b hlow)
    · intro hb hupper
      exact valueAt_lt_of_upperBound hpos hb (hadmits.2 b hupper)

/-- `1 + ε` on its low bound and strictly below `2`; `3 - 2ε` between `1` and strictly below `3`; `5/2` strictly below
`3` -/
def cramped : List (Delta × Span Delta) :=
  [(⟨1, 1⟩, { low := some ⟨1, 1⟩, upper := some ⟨2, -1⟩ }), (⟨3, -2⟩, { low := some ⟨1, 0⟩, upper := some ⟨3, -1⟩ }),
    (⟨5 / 2, 0⟩, { upper := some ⟨3, -1⟩ })]

/-- a tight gap and two that shrink: the largest number is a half, and at `3/4` a bound fails -/
theorem cramped_is_halved : choose cramped = 1 / 4 ∧ (∀ column ∈ cramped, Admits (1 / 2) column) ∧
    (∃ column ∈ cramped, ¬Admits (3 / 4) column) ∧ (1 : Rat) < Delta.valueAt ⟨1, 1⟩ (1 / 4) := by
  have hchoose : choose cramped = 1 / 4 := by decide +kernel
  have hinside : ∀ column ∈ cramped, column.2.Contains column.1 := by
    simp [cramped, Span.Contains, Delta.le_iff]
    norm_num
  obtain ⟨-, hkept, hfails, hstrict⟩ := choose_half_of_largest hinside
  rw [hchoose] at hkept hfails hstrict
  refine ⟨hchoose, hkept _ (by norm_num) (by norm_num), hfails _ (by norm_num) (by norm_num), ?_⟩
  exact (hstrict (⟨1, 1⟩, { low := some ⟨1, 1⟩, upper := some ⟨2, -1⟩ }) List.mem_cons_self 1 ⟨1, 1⟩).1 rfl rfl

end Epsilon

/-- **Strictness.** A value that keeps the bounds which an interval gives to a column is a number inside the interval,
as soon as a positive number takes the place of the infinitesimal. -/
theorem Interval.contains_valueAt {i : Interval} {v : Delta} {t : Rat} (ht : 0 < t)
    (h : Epsilon.Admits t (v, i.span)) : i.contains (v.valueAt t) = true := by
  rw [contains_iff]
  constructor
  · intro l hl
    have hle := h.1 l.lowDelta (by simp [span, hl])
    unfold insideLow
    unfold Delta.valueAt Limit.lowDelta at *
    cases hs : l.strict
    · simp only [hs] at hle
      simp at hle ⊢
      linarith
    · simp only [hs] at hle
      simp at hle ⊢
      linarith
  · intro u hu
    have hle := h.2 u.upperDelta (by simp [span, hu])
    unfold insideUpper
    unfold Delta.valueAt Limit.upperDelta at *
    cases hs : u.strict
    · simp only [hs] at hle
      simp at hle ⊢
      linarith
    · simp only [hs] at hle
      simp at hle ⊢
      linarith

end Halfspace
