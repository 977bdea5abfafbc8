/-
Doubles as rounded numbers.

A finite double denotes a rational that rounding leaves alone (`Denoted`), and a result is the exact one, rounded once
(`roundTo`), unless that reaches the limit (`nearest_cases`). Rounding keeps order and sign. It moves a number by at most
one part in `2 ^ 53`, or by half of the last digit of all where that is more (`abs_roundTo_sub_le`).
-/
import Halfspace.Proofs.RoundingOrder

namespace Halfspace

open Rounding

namespace Double

variable {a b : Double} {q x y : Rat} {k : Int}

/-! ## Rounding -/

/-- the double nearest to a number, as a number and without a limit on size -/
def roundTo (q : Rat) : Rat := significant digits (some lowestExponent) q

theorem roundTo_mono (h : x ≤ y) : roundTo x ≤ roundTo y := significant_mono (by decide) _ h

theorem roundTo_idem (q : Rat) : roundTo (roundTo q) = roundTo q := significant_idem (by decide) _ q

@[simp] theorem roundTo_zero : roundTo 0 = 0 := by rw [roundTo, significant, if_pos rfl]

theorem roundTo_nonneg (h : 0 ≤ q) : 0 ≤ roundTo q := significant_nonneg _ _ h

theorem abs_roundTo (q : Rat) : |roundTo q| = roundTo |q| := by
  rcases le_total 0 q with h | h
  · rw [abs_of_nonneg h, abs_of_nonneg (roundTo_nonneg h)]
  · have hneg : roundTo (-q) = -roundTo q := significant_neg _ _ q
    have hnonneg := roundTo_nonneg (neg_nonneg.2 h)
    rw [abs_of_nonpos h, hneg, abs_of_nonpos (by linarith)]

/-- the exponent of the last digit that is kept -/
theorem gridExponent_double (q : Rat) :
    gridExponent digits (some lowestExponent) q = Max.max (leadingExponent q - 52) (-1074) := by
  rw [gridExponent_eq, digits, lowestExponent]
  simp only [Option.elim]
  omega

/-- the digits of a rounded number end 52 places below a power of two that it reaches -/
theorem multiple_of_rounded (h : roundTo q = q) (hq : q ≠ 0) (hlow : twoPow k ≤ |q|) :
    Multiple (Max.max (k - 52) (-1074)) q := by
  have hleading : k < leadingExponent q + 1 := twoPow_lt_iff.1 (hlow.trans_lt (leadingExponent_spec hq).2)
  have hgrid : Multiple (gridExponent digits (some lowestExponent) q) (roundTo q) := by
    rw [roundTo, significant_of_ne_zero _ _ hq]
    exact multiple_onGrid _ q
  rw [h, gridExponent_double] at hgrid
  exact hgrid.of_le (by omega)

/-- the part of its size by which rounding moves a number that has all its digits -/
def roundoff : Rat := twoPow (-53)

theorem roundoff_pos : 0 < roundoff := twoPow_pos _

theorem abs_roundTo_sub_le (q : Rat) : |roundTo q - q| ≤ Max.max (roundoff * |q|) (twoPow (-1075)) := by
  by_cases hq : q = 0
  · simp [hq, (twoPow_pos (-1075)).le]
  have hhalf : ∀ e, twoPow e / 2 = twoPow (e - 1) := by
    intro e
    have htwo : twoPow 1 = 2 := rfl
    rw [div_eq_iff two_ne_zero, ← htwo, ← twoPow_add, sub_add_cancel]
  have hmoved : |roundTo q - q| ≤ twoPow (Max.max (leadingExponent q - 52) (-1074) - 1) := by
    rw [← hhalf, ← gridExponent_double, roundTo, significant_of_ne_zero _ _ hq]
    exact abs_onGrid_sub_le _ q
  apply hmoved.trans
  rcases le_total (leadingExponent q - 52) (-1074) with h | h
  · rw [max_eq_right h]
    exact le_max_right _ _
  · rw [max_eq_left h]
    apply le_max_of_le_left
    calc twoPow (leadingExponent q - 52 - 1) = roundoff * twoPow (leadingExponent q) := by
          rw [roundoff, ← twoPow_add]
          congr 1
          omega
      _ ≤ roundoff * |q| := mul_le_mul_of_nonneg_left (leadingExponent_spec hq).1 roundoff_pos.le

/-! ## Results -/

/-- the nearest double is the rounded number, or infinite on its side -/
theorem nearest_cases (negative : Bool) (q : Rat) :
    (nearest negative q).value? = some (roundTo q) ∧ |roundTo q| < limit ∨
      nearest negative q = posInf ∧ limit ≤ roundTo q ∨ nearest negative q = negInf ∧ roundTo q ≤ -limit := by
  have hlimit : 0 < limit := twoPow_pos 1024
  unfold nearest roundTo
  dsimp only
  generalize significant digits (some lowestExponent) q = r
  generalize limit = top at hlimit
  split_ifs with hzero hlarge hsmall
  · refine .inl ⟨?_, by rwa [hzero, abs_zero]⟩
    rw [hzero, signedZero]
    split_ifs <;> rfl
  · exact .inr (.inl ⟨rfl, hlarge⟩)
  · exact .inr (.inr ⟨rfl, hsmall⟩)
  · exact .inl ⟨rfl, abs_lt.2 ⟨not_le.1 hsmall, not_le.1 hlarge⟩⟩

theorem value_nearest (negative : Bool) (h : |roundTo q| < limit) :
    (nearest negative q).value? = some (roundTo q) := by
  rcases nearest_cases negative q with ⟨hvalue, -⟩ | ⟨-, hlarge⟩ | ⟨-, hsmall⟩
  · exact hvalue
  · exact absurd (abs_lt.1 h).2 (not_lt.2 hlarge)
  · exact absurd (abs_lt.1 h).1 (not_lt.2 hsmall)

theorem nearest_of_nonneg (hnonneg : 0 ≤ roundTo q) (h : roundTo q < limit) : nearest false q = finite (roundTo q) := by
  have hlimit : 0 < limit := twoPow_pos 1024
  unfold nearest roundTo at *
  dsimp only
  generalize significant digits (some lowestExponent) q = r at hnonneg h
  have hlow : ¬r ≤ -limit := by linarith
  rw [if_neg (not_le.2 h), if_neg hlow]
  split_ifs with hzero
  · rw [hzero, signedZero, if_neg Bool.false_ne_true]
  · rfl

theorem nearest_of_limit_le (negative : Bool) (h : limit ≤ roundTo q) : nearest negative q = posInf := by
  have hlimit : 0 < limit := twoPow_pos 1024
  rcases nearest_cases negative q with ⟨-, hsmall⟩ | ⟨hinf, -⟩ | ⟨-, hsmall⟩
  · exact absurd (abs_lt.1 hsmall).2 (not_lt.2 h)
  · exact hinf
  · linarith

/-- the numbers that doubles denote -/
structure Denoted (q : Rat) : Prop where
  rounded : roundTo q = q
  small : |q| < limit

def IsNumber (a : Double) : Prop := ∃ q, ofRat? q = some a

theorem value_of_ofRat? (h : ofRat? q = some a) : a.value? = some (roundTo q) ∧ |roundTo q| < limit := by
  unfold ofRat? at h
  dsimp only at h
  split_ifs at h with hfinite
  obtain rfl : ofRat q = a := Option.some.inj h
  rcases nearest_cases (q < 0) q with hvalue | ⟨hinf, -⟩ | ⟨hinf, -⟩
  · exact hvalue
  · rw [ofRat, hinf] at hfinite
    cases hfinite
  · rw [ofRat, hinf] at hfinite
    cases hfinite

theorem IsNumber.denoted (h : a.IsNumber) : ∃ q, a.value? = some q ∧ Denoted q := by
  obtain ⟨q, hq⟩ := h
  obtain ⟨hvalue, hsmall⟩ := value_of_ofRat? hq
  exact ⟨roundTo q, hvalue, roundTo_idem q, hsmall⟩

theorem isFinite_of_value (h : a.value? = some q) : a.isFinite = true := by rw [isFinite, h, Option.isSome_some]

theorem lt_eq_decide (ha : a.value? = some x) (hb : b.value? = some y) : a.lt b = decide (x < y) := by
  cases a <;> cases b <;> simp_all [value?, lt]

theorem value_mul (ha : a.value? = some x) (hb : b.value? = some y) (h : |roundTo (x * y)| < limit) :
    (a.mul b).value? = some (roundTo (x * y)) := by
  rw [mul, ha, hb]
  exact value_nearest _ h

theorem one_div_finite (hq : 0 < q) : one.div (finite q) = nearest false (1 / q) := by
  have hsigns : one.signsDiffer (finite q) = false := by
    simp only [signsDiffer, isNegative, one, decide_eq_false (not_lt.2 zero_le_one), decide_eq_false (not_lt.2 hq.le),
      bne_self_eq_false]
  simp only [div, value?, one, if_neg hq.ne']
  rw [← one, hsigns]

theorem isFinite_of_mul (h : (a.mul b).isFinite = true) : a.isFinite = true ∧ b.isFinite = true := by
  unfold mul at h
  unfold isFinite
  split at h
  · next x y hx hy => exact ⟨by rw [hx]; rfl, by rw [hy]; rfl⟩
  · exfalso
    split_ifs at h
    · cases h
    · unfold signedInf at h
      split_ifs at h <;> cases h

theorem mul_by_one (ha : a.value? = some x) (hx : Denoted x) : a.mul one = a := by
  have hrounded := hx.rounded
  have hsmall := abs_lt.1 hx.small
  unfold roundTo at hrounded
  cases a with
  | finite q =>
    obtain rfl : q = x := Option.some.inj ha
    simp only [mul, value?, one, mul_one, nearest, hrounded]
    rw [if_neg (not_le.2 hsmall.2), if_neg (not_le.2 hsmall.1)]
    split_ifs with hq
    · subst hq
      simp [signsDiffer, isNegative, signedZero]
    · rfl
  | negZero => simp [mul, one, value?, nearest, significant, signsDiffer, isNegative, signedZero]
  | _ => cases ha

theorem abs_eq_finite (ha : a.value? = some x) : a.abs = finite |x| := by
  cases a with
  | finite q =>
    obtain rfl : q = x := Option.some.inj ha
    rcases lt_or_ge q 0 with hq | hq
    · simp [abs, isNegative, neg, hq, hq.ne, abs_of_neg hq]
    · simp [abs, isNegative, not_lt.2 hq, abs_of_nonneg hq]
  | negZero =>
    obtain rfl : 0 = x := Option.some.inj ha
    rfl
  | _ => cases ha

theorem max_finite (x y : Rat) : (finite x).max (finite y) = finite (Max.max x y) := by
  simp only [max, isNaN, lt, Bool.or_self, Bool.false_eq_true, if_false, decide_eq_true_eq]
  split_ifs with h
  · rw [max_eq_right h.le]
  · rw [max_eq_left (not_lt.1 h)]

end Double

end Halfspace
