/-
What rounding leaves alone.

Rounding to an integer stays within a half (`abs_nearestEven_sub_le`), so that no number changes its sign
(`significant_nonneg`) and minus one, which is on every grid of one digit or more, is not rounded away
(`significant_neg_one_ne_zero`). Rounded twice on the way to a double, the tolerance of the longer floats is not negative
either (`extendedTolerance_nonneg`).
-/
import Halfspace.Arithmetic
import Mathlib.Tactic

namespace Halfspace

namespace Rounding

/-! ## Grids -/

theorem twoPow_pos (e : Int) : 0 < twoPow e := by
  cases e with
  | ofNat n => simp [twoPow, Rat.mkRat_eq_div]
  | negSucc n => simp [twoPow, Rat.mkRat_eq_div]

theorem twoPow_le_one {e : Int} (he : e ≤ 0) : twoPow e ≤ 1 := by
  cases e with
  | ofNat n =>
    have hn : n = 0 := by
      have : (n : Int) ≤ 0 := he
      omega
    subst hn
    rfl
  | negSucc n =>
    have hpow : (1 : Rat) ≤ (Nat.pow 2 (n + 1) : Nat) := Nat.one_le_cast.2 (Nat.two_pow_pos _)
    rw [twoPow, Rat.mkRat_eq_div, Int.cast_one]
    exact (div_le_one (zero_lt_one.trans_le hpow)).2 hpow

/-! ## Integers -/

/-- **Within a half.** -/
theorem abs_nearestEven_sub_le (q : Rat) : |(nearestEven q : Rat) - q| ≤ 1 / 2 := by
  have hlow : (q.floor : Rat) ≤ q := Rat.floor_le q
  have hhigh : q < q.floor + 1 := by
    have := Rat.lt_floor_add_one q
    push_cast at this
    exact this
  unfold nearestEven
  dsimp only
  rw [abs_le]
  split_ifs <;> push_cast <;> constructor <;> linarith

theorem nearestEven_nonneg {q : Rat} (hq : 0 ≤ q) : 0 ≤ nearestEven q := by
  have hclose := (abs_le.1 (abs_nearestEven_sub_le q)).1
  by_contra hneg
  have hle : (nearestEven q : Rat) ≤ -1 := by
    exact_mod_cast Int.le_sub_one_of_lt (not_le.1 hneg)
  linarith

theorem nearestEven_neg {q : Rat} (hq : q ≤ -1) : nearestEven q < 0 := by
  have hclose := (abs_le.1 (abs_nearestEven_sub_le q)).2
  by_contra hpos
  have hle : (0 : Rat) ≤ nearestEven q := by
    exact_mod_cast not_lt.1 hpos
  linarith

/-! ## Leading digits -/

theorem onGrid_nonneg (e : Int) {q : Rat} (hq : 0 ≤ q) : 0 ≤ onGrid e q := by
  have hdigits : 0 ≤ nearestEven (q / twoPow e) := nearestEven_nonneg (div_nonneg hq (twoPow_pos e).le)
  exact mul_nonneg (Int.cast_nonneg hdigits) (twoPow_pos e).le

/-- **Signs.** A number that is not negative is rounded to one that is not. -/
theorem significant_nonneg (precision : Nat) (lowest : Option Int) {q : Rat} (hq : 0 ≤ q) :
    0 ≤ significant precision lowest q := by
  unfold significant
  split_ifs
  · exact le_rfl
  · exact onGrid_nonneg _ hq

/-- minus one has a digit on the grid of one or more digits, and is not rounded away -/
theorem significant_neg_one_ne_zero {precision : Nat} (hprecision : 1 ≤ precision) :
    significant precision none (-1) ≠ 0 := by
  have hgrid : gridExponent precision none (-1) = 1 - precision := by
    have hleading : leadingExponent (-1) = 0 := by decide +kernel
    unfold gridExponent
    rw [hleading, zero_add]
  have hcoarse : gridExponent precision none (-1) ≤ 0 := by omega
  have hpos := twoPow_pos (gridExponent precision none (-1))
  have hdigits : nearestEven (-1 / twoPow (gridExponent precision none (-1))) < 0 := by
    apply nearestEven_neg
    rw [div_le_iff₀ hpos]
    linarith [twoPow_le_one hcoarse]
  unfold significant
  rw [if_neg (by norm_num)]
  exact mul_ne_zero (Int.cast_ne_zero.2 hdigits.ne) hpos.ne'

end Rounding

/-! ## Tolerances -/

theorem Double.value_ofRat_nonneg {q v : Rat} (hq : 0 ≤ q) (hv : (Double.ofRat q).value? = some v) : 0 ≤ v := by
  have hround := Rounding.significant_nonneg Double.digits (some Double.lowestExponent) hq
  unfold Double.ofRat Double.nearest at hv
  dsimp only at hv
  split_ifs at hv with hzero hlarge hsmall
  · unfold Double.signedZero at hv
    split_ifs at hv <;> exact (Option.some.inj hv).le
  · cases hv
  · cases hv
  · exact hround.trans_eq (Option.some.inj hv)

namespace Arithmetic

theorem rounded_nonneg (precision : Nat) {q : Rat} (hq : 0 ≤ q) : 0 ≤ rounded precision q :=
  Rounding.significant_nonneg precision none hq

theorem extendedTolerance_nonneg (digits : Nat) : 0 ≤ (extendedTolerance digits).value?.getD 0 := by
  cases hvalue : (extendedTolerance digits).value? with
  | none => exact le_rfl
  | some v =>
    refine Double.value_ofRat_nonneg ?_ hvalue
    apply rounded_nonneg
    apply one_div_nonneg.2
    apply rounded_nonneg
    rw [Rat.mkRat_eq_div]
    positivity

end Arithmetic

end Halfspace
