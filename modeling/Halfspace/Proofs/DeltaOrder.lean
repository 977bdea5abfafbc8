/-
`Delta` as an ordered vector space over the rationals.

The order is the lexicographic one; sums, negatives and multiples are taken part by part, so that adding keeps the
order and a positive factor keeps it too. Putting a rational in the place of the infinitesimal is linear (`valueMap`).
The operations of `Arithmetic.exact` are those of the vector space.
-/
import Halfspace.Arithmetic
import Mathlib.Algebra.Order.Module.Rat
import Mathlib.Tactic

namespace Halfspace

namespace Delta

theorem ext_parts {a b : Delta} (h1 : a.base = b.base) (h2 : a.slope = b.slope) : a = b := by
  cases a
  cases b
  simp_all

/-! ## Vector space -/

instance : Zero Delta := ⟨zero⟩
instance : SMul Rat Delta := ⟨scale⟩

theorem base_zero : (0 : Delta).base = 0 := rfl
theorem slope_zero : (0 : Delta).slope = 0 := rfl
theorem base_add (a b : Delta) : (a + b).base = a.base + b.base := rfl
theorem slope_add (a b : Delta) : (a + b).slope = a.slope + b.slope := rfl
theorem base_sub (a b : Delta) : (a - b).base = a.base - b.base := rfl
theorem slope_sub (a b : Delta) : (a - b).slope = a.slope - b.slope := rfl
theorem base_neg (a : Delta) : (-a).base = -a.base := rfl
theorem slope_neg (a : Delta) : (-a).slope = -a.slope := rfl
theorem base_smul (k : Rat) (a : Delta) : (k • a).base = k * a.base := mul_comm _ _
theorem slope_smul (k : Rat) (a : Delta) : (k • a).slope = k * a.slope := mul_comm _ _

attribute [simp] base_zero slope_zero base_add slope_add base_sub slope_sub base_neg slope_neg base_smul slope_smul

instance : AddCommGroup Delta where
  add_assoc a b c := ext_parts (add_assoc _ _ _) (add_assoc _ _ _)
  zero_add a := ext_parts (zero_add _) (zero_add _)
  add_zero a := ext_parts (add_zero _) (add_zero _)
  add_comm a b := ext_parts (add_comm _ _) (add_comm _ _)
  neg_add_cancel a := ext_parts (neg_add_cancel _) (neg_add_cancel _)
  sub_eq_add_neg a b := ext_parts (sub_eq_add_neg _ _) (sub_eq_add_neg _ _)
  nsmul := nsmulRec
  zsmul := zsmulRec

instance : Module Rat Delta where
  one_smul a := ext_parts (by simp) (by simp)
  mul_smul k l a := ext_parts (by simp [mul_assoc]) (by simp [mul_assoc])
  smul_zero k := ext_parts (by simp) (by simp)
  smul_add k a b := ext_parts (by simp [mul_add]) (by simp [mul_add])
  add_smul k l a := ext_parts (by simp [add_mul]) (by simp [add_mul])
  zero_smul a := ext_parts (by simp) (by simp)

theorem unscale_eq_smul (k : Rat) (a : Delta) : a.unscale k = k⁻¹ • a :=
  ext_parts (by simp [unscale, div_eq_inv_mul]) (by simp [unscale, div_eq_inv_mul])

/-! ## Order -/

theorem lt_iff (a b : Delta) : a < b ↔ a.base < b.base ∨ (a.base = b.base ∧ a.slope < b.slope) := Iff.rfl

theorem le_iff (a b : Delta) : a ≤ b ↔ a.base < b.base ∨ (a.base = b.base ∧ a.slope ≤ b.slope) := by
  constructor
  · rintro ((h | ⟨h, h'⟩) | rfl)
    · exact Or.inl h
    · exact Or.inr ⟨h, h'.le⟩
    · exact Or.inr ⟨rfl, le_rfl⟩
  · rintro (h | ⟨h, h'⟩)
    · exact Or.inl (Or.inl h)
    · rcases h'.lt_or_eq with h' | h'
      · exact Or.inl (Or.inr ⟨h, h'⟩)
      · exact Or.inr (ext_parts h h')

instance : LinearOrder Delta where
  le_refl a := Or.inr rfl
  le_trans a b c h1 h2 := by
    rw [le_iff] at *
    rcases h1 with h1 | ⟨h1, h1'⟩ <;> rcases h2 with h2 | ⟨h2, h2'⟩
    · exact Or.inl (h1.trans h2)
    · exact Or.inl (h2 ▸ h1)
    · exact Or.inl (h1 ▸ h2)
    · exact Or.inr ⟨h1.trans h2, h1'.trans h2'⟩
  lt_iff_le_not_ge a b := by
    rw [lt_iff, le_iff, le_iff]
    constructor
    · rintro (h | ⟨h, h'⟩)
      · exact ⟨Or.inl h, by rintro (h2 | ⟨h2, -⟩) <;> linarith⟩
      · exact ⟨Or.inr ⟨h, h'.le⟩, by rintro (h2 | ⟨-, h2⟩) <;> linarith⟩
    · rintro ⟨h | ⟨h, h'⟩, hn⟩
      · exact Or.inl h
      · exact Or.inr ⟨h, lt_of_le_of_ne h' fun he => hn (Or.inr ⟨h.symm, he.ge⟩)⟩
  le_antisymm a b h1 h2 := by
    rw [le_iff] at *
    rcases h1 with h1 | ⟨h1, h1'⟩ <;> rcases h2 with h2 | ⟨h2, h2'⟩
    · exact absurd h1 h2.not_gt
    · exact absurd h1 h2.not_gt
    · exact absurd h2 h1.not_gt
    · exact ext_parts h1 (le_antisymm h1' h2')
  le_total a b := by
    rw [le_iff, le_iff]
    rcases lt_trichotomy a.base b.base with h | h | h
    · exact Or.inl (Or.inl h)
    · rcases le_total a.slope b.slope with h' | h'
      · exact Or.inl (Or.inr ⟨h, h'⟩)
      · exact Or.inr (Or.inr ⟨h.symm, h'⟩)
    · exact Or.inr (Or.inl h)
  toDecidableLE := inferInstance
  toDecidableEq := inferInstance
  toDecidableLT := inferInstance

instance : IsOrderedAddMonoid Delta where
  add_le_add_left a b h c := by
    rw [le_iff] at *
    simpa using h

instance : PosSMulStrictMono Rat Delta where
  smul_lt_smul_of_pos_left k hk a b h := by
    rw [lt_iff] at *
    simpa [hk, hk.ne'] using h

/-! ## Substituting the infinitesimal -/

def valueMap (d : Rat) : Delta →ₗ[Rat] Rat where
  toFun a := a.valueAt d
  map_add' a b := valueAt_add a b d
  map_smul' k a := valueAt_scale k a d

end Delta

/-! ## The exact arithmetic -/

namespace Arithmetic

@[simp] theorem exact_zero : exact.zero = 0 := rfl
@[simp] theorem exact_null : exact.null = 0 := rfl
@[simp] theorem exact_one : exact.one = 1 := rfl
@[simp] theorem exact_coefficient (c : Rat) : exact.coefficient c = .ok c := rfl
@[simp] theorem exact_neg (a : Rat) : exact.neg a = -a := rfl
@[simp] theorem exact_add (a b : Rat) : exact.add a b = a + b := rfl
@[simp] theorem exact_mul (a b : Rat) : exact.mul a b = a * b := rfl
@[simp] theorem exact_div (a b : Rat) : exact.div a b = a / b := rfl
@[simp] theorem exact_isNull (a : Rat) : exact.isNull a = decide (a = 0) := rfl
@[simp] theorem exact_isZero (a : Rat) : exact.isZero a = decide (a = 0) := rfl
@[simp] theorem exact_isPositive (a : Rat) : exact.isPositive a = decide (0 < a) := rfl
@[simp] theorem exact_isNegative (a : Rat) : exact.isNegative a = decide (a < 0) := rfl
@[simp] theorem exact_plus (a b : Delta) : exact.plus a b = a + b := rfl
@[simp] theorem exact_minus (a b : Delta) : exact.minus a b = a - b := rfl
@[simp] theorem exact_scale (k : Rat) (a : Delta) : exact.scale k a = k • a := rfl
@[simp] theorem exact_unscale (k : Rat) (a : Delta) : exact.unscale k a = k⁻¹ • a := Delta.unscale_eq_smul k a
@[simp] theorem exact_less (a b : Delta) : exact.less a b = decide (a < b) := rfl
@[simp] theorem exact_greater (a b : Delta) : exact.greater a b = decide (b < a) := rfl

end Arithmetic

end Halfspace
