/-
Small rationals in the place of the infinitesimal.

Two numbers `base + slope·ε` with different bases change places only where ε reaches the crossing point of their values,
and with equal bases nowhere above zero. Short of `reach` of their difference the values are therefore in the order of
the numbers (`Delta.lt_iff_valueAt`), and finitely many numbers have a positive rational short of which all their values
are (`Delta.exists_threshold`). The arithmetic takes no notice of what ε is (`Delta.Substitutes`), and it keeps the order
as that of rationals does (`Delta.KeepsOrder`).
-/
import Halfspace.Proofs.DeltaOrder

namespace Halfspace

namespace Delta

variable {a b : Delta} {d : Rat}

/-! ## One number -/

/-- a positive rational up to which a number keeps its sign when ε is replaced -/
def reach (a : Delta) : Rat := if a.base = 0 then 1 else |a.base| / (|a.slope| + 1)

theorem reach_pos (a : Delta) : 0 < a.reach := by
  unfold reach
  split_ifs with hbase
  · exact one_pos
  · exact div_pos (abs_pos.2 hbase) (by positivity)

/-- within reach the slope does not outweigh the base -/
theorem abs_mul_slope_lt (hbase : a.base ≠ 0) (hd : 0 < d) (h : d ≤ a.reach) : |d * a.slope| < |a.base| := by
  have hstep : 0 < |a.slope| + 1 := by positivity
  rw [reach, if_neg hbase, le_div_iff₀ hstep] at h
  rw [abs_mul, abs_of_pos hd]
  linarith

theorem valueAt_pos (ha : 0 < a) (hd : 0 < d) (h : d ≤ a.reach) : 0 < a.valueAt d := by
  rw [valueAt]
  rcases (lt_iff _ _).1 ha with hbase | ⟨hbase, hslope⟩
  · have hbase : 0 < a.base := hbase
    have hsmall := abs_mul_slope_lt hbase.ne' hd h
    rw [abs_of_pos hbase] at hsmall
    linarith [neg_abs_le (d * a.slope)]
  · have hbase : a.base = 0 := hbase.symm
    rw [hbase, zero_add]
    exact mul_pos hd hslope

/-! ## Two numbers -/

theorem valueAt_lt (hab : a < b) (hd : 0 < d) (h : d ≤ (b - a).reach) : a.valueAt d < b.valueAt d := by
  have hgap := valueAt_pos (sub_pos.2 hab) hd h
  rw [valueAt_sub] at hgap
  exact sub_pos.1 hgap

/-- **Two numbers.** Their order is that of their values, and they are equal when their values are. -/
theorem lt_iff_valueAt (hd : 0 < d) (hab : d ≤ (b - a).reach) (hba : d ≤ (a - b).reach) :
    (a < b ↔ a.valueAt d < b.valueAt d) ∧ (a = b ↔ a.valueAt d = b.valueAt d) := by
  rcases lt_trichotomy a b with hlt | rfl | hgt
  · have hvalue := valueAt_lt hlt hd hab
    exact ⟨iff_of_true hlt hvalue, iff_of_false hlt.ne hvalue.ne⟩
  · simp
  · have hvalue := valueAt_lt hgt hd hba
    exact ⟨iff_of_false hgt.not_gt hvalue.not_gt, iff_of_false hgt.ne' hvalue.ne'⟩

/-! ## Finitely many numbers -/

theorem exists_pos_le {α : Type} (xs : List α) {f : α → Rat} (hf : ∀ x ∈ xs, 0 < f x) :
    ∃ d : Rat, 0 < d ∧ ∀ x ∈ xs, d ≤ f x := by
  induction xs with
  | nil => exact ⟨1, one_pos, by simp⟩
  | cons x rest ih =>
    obtain ⟨d, hd, hrest⟩ := ih fun y hy => hf y (List.mem_cons_of_mem _ hy)
    refine ⟨min (f x) d, lt_min (hf x List.mem_cons_self) hd, ?_⟩
    intro y hy
    rcases List.mem_cons.1 hy with rfl | hy
    · exact min_le_left _ _
    · exact (min_le_right _ _).trans (hrest y hy)

/-- values at which the order of listed numbers can be read off -/
def Tells (xs : List Delta) (d : Rat) : Prop :=
  ∀ a ∈ xs, ∀ b ∈ xs, (a < b ↔ a.valueAt d < b.valueAt d) ∧ (a = b ↔ a.valueAt d = b.valueAt d)

/-- **A threshold.** One threshold serves all pairs. -/
theorem exists_threshold (xs : List Delta) : ∃ d0 : Rat, 0 < d0 ∧ ∀ d, 0 < d → d ≤ d0 → Tells xs d := by
  obtain ⟨d0, hpos, hle⟩ := exists_pos_le (xs.product xs) fun p _ => (p.2 - p.1).reach_pos
  refine ⟨d0, hpos, ?_⟩
  intro d hd hd0 a ha b hb
  have hab := hle (a, b) (List.mem_product.2 ⟨ha, hb⟩)
  have hba := hle (b, a) (List.mem_product.2 ⟨hb, ha⟩)
  exact lt_iff_valueAt hd (hd0.trans hab) (hd0.trans hba)

/-! ## Arithmetic -/

/-- replacing ε by `d` commutes with the arithmetic -/
structure Substitutes (d : Rat) : Prop where
  add : ∀ a b : Delta, (a + b).valueAt d = a.valueAt d + b.valueAt d
  sub : ∀ a b : Delta, (a - b).valueAt d = a.valueAt d - b.valueAt d
  neg : ∀ a : Delta, (-a).valueAt d = -a.valueAt d
  scale : ∀ (k : Rat) (a : Delta), (a.scale k).valueAt d = k * a.valueAt d
  divide : ∀ (a : Delta) (k : Rat), k ≠ 0 → ∃ q, a.divide k = some q ∧ q.valueAt d = a.valueAt d / k

theorem substitutes (d : Rat) : Substitutes d where
  add a b := valueAt_add a b d
  sub a b := valueAt_sub a b d
  neg a := valueAt_neg a d
  scale k a := valueAt_scale k a d
  divide a k hk := by
    refine ⟨a.unscale k, if_neg hk, ?_⟩
    rw [unscale_eq_smul]
    exact (valueAt_scale k⁻¹ a d).trans (div_eq_inv_mul _ _).symm

/-- the arithmetic keeps the order, a negative factor reversing it -/
structure KeepsOrder : Prop where
  add : ∀ a b c : Delta, a < b → a + c < b + c
  scale_pos : ∀ (k : Rat) (a b : Delta), 0 < k → a < b → a.scale k < b.scale k
  scale_neg : ∀ (k : Rat) (a b : Delta), k < 0 → a < b → b.scale k < a.scale k

theorem keepsOrder : KeepsOrder where
  add _ _ c hab := add_lt_add_left hab c
  scale_pos k a b hk hab := by
    have hscaled : k • a < k • b := smul_lt_smul_of_pos_left hab hk
    exact hscaled
  scale_neg k a b hk hab := by
    have hscaled : k • b < k • a := smul_lt_smul_of_neg_left hab hk
    exact hscaled

/-- **Lexicographic order is the order at small rationals.** For every list of numbers there is a threshold up to which
their order, and their equality, can be read off their values; replacing ε commutes with the arithmetic at every
rational, and the arithmetic keeps the order. -/
theorem order_at_small_rationals (xs : List Delta) :
    (∃ d0 : Rat, 0 < d0 ∧ ∀ d, 0 < d → d ≤ d0 → Tells xs d) ∧ (∀ d, Substitutes d) ∧ KeepsOrder :=
  ⟨exists_threshold xs, substitutes, keepsOrder⟩

/-- `2`, `1 + 1000·ε`, `2 - ε` and again `2`: at one the values are out of order, short of a threshold they are not -/
theorem crossing_is_told : ¬Tells [⟨2, 0⟩, ⟨1, 1000⟩, ⟨2, -1⟩, ⟨2, 0⟩] 1 ∧
    ∃ d0 : Rat, 0 < d0 ∧ Tells [⟨2, 0⟩, ⟨1, 1000⟩, ⟨2, -1⟩, ⟨2, 0⟩] d0 := by
  constructor
  · unfold Tells
    decide +kernel
  · obtain ⟨⟨d0, hpos, htells⟩, -⟩ := order_at_small_rationals [⟨2, 0⟩, ⟨1, 1000⟩, ⟨2, -1⟩, ⟨2, 0⟩]
    exact ⟨d0, hpos, htells d0 hpos le_rfl⟩

end Delta

end Halfspace
