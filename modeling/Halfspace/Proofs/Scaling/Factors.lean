/-
Factors of a scaling pass.

A line is multiplied by the rounded reciprocal of its largest magnitude (`balance`). That is finite unless the line is
faint: its largest magnitude is not zero, yet at most `2 ^ -1024`. One such factor brings the largest magnitude within
four roundoffs of one (`Near.first`), crossing lines move it by as much again (`Near.crossed`), and a second factor
brings it to one exactly (`Near.settled`), as it does for each of the few doubles that are so close to one. The second
factor may be above one while the first is already close to the limit; then the line was less far from one, so that the
product of both stays below the limit.
-/
import Halfspace.Scaling
import Halfspace.Proofs.Doubles

namespace Halfspace

open Rounding Double

namespace Scaled

variable {f m p q : Rat}

/-- the factor of a line whose largest magnitude is `m` -/
def balance (m : Rat) : Rat := if m = 0 then 1 else roundTo (1 / m)

/-- the greatest number of which the reciprocal is no double -/
def faintest : Rat := twoPow (-1024)

theorem faintest_pos : 0 < faintest := twoPow_pos _

theorem balance_zero : balance 0 = 1 := if_pos rfl

theorem balance_of_ne_zero (h : m ≠ 0) : balance m = roundTo (1 / m) := if_neg h

theorem balance_nonneg (h : 0 ≤ m) : 0 ≤ balance m := by
  unfold balance
  split_ifs
  · exact zero_le_one
  · exact roundTo_nonneg (one_div_nonneg.2 h)

theorem roundTo_balance (m : Rat) : roundTo (balance m) = balance m := by
  unfold balance
  split_ifs
  · decide +kernel
  · exact roundTo_idem _

/-! ## Sizes of factors -/

theorem limit_le_balance (hpos : 0 < m) (h : m ≤ faintest) : limit ≤ balance m := by
  rw [balance_of_ne_zero hpos.ne']
  have hclosed : limit ≤ roundTo (1 / faintest) := by decide +kernel
  exact hclosed.trans (roundTo_mono (one_div_le_one_div_of_le hpos h))

/-- above the faintest number comes one that is larger by the last digit of all, and its reciprocal is some way off the
limit -/
theorem balance_le (hm : Denoted m) (h : m = 0 ∨ faintest < m) : balance m ≤ limit * (1 - 7 * roundoff) := by
  have hclosed : 1 ≤ limit * (1 - 7 * roundoff) ∧
      roundTo (1 / (faintest + twoPow (-1074))) ≤ limit * (1 - 7 * roundoff) := by decide +kernel
  rcases h with rfl | h
  · rw [balance_zero]
    exact hclosed.1
  have hpos : 0 < m := faintest_pos.trans h
  have hnext : faintest + twoPow (-1074) ≤ m := by
    obtain ⟨n, hn⟩ : Multiple (-1074) m := by
      have hmultiple := multiple_of_rounded hm.rounded hpos.ne' (h.le.trans (le_abs_self m))
      exact hmultiple.of_le (le_max_right _ _)
    obtain ⟨d, hd⟩ : Multiple (-1074) faintest := multiple_twoPow (by omega)
    have hstep := twoPow_pos (-1074)
    have hlt : d < n := by
      rw [hn, hd] at h
      exact_mod_cast lt_of_mul_lt_mul_right h hstep.le
    have hle : (d + 1 : Rat) ≤ n := by exact_mod_cast hlt
    rw [hn, hd, ← add_one_mul]
    exact mul_le_mul_of_nonneg_right hle hstep.le
  rw [balance_of_ne_zero hpos.ne']
  have hstart : 0 < faintest + twoPow (-1074) := add_pos faintest_pos (twoPow_pos _)
  exact (roundTo_mono (one_div_le_one_div_of_le hstart hnext)).trans hclosed.2

theorem le_balance (h : 0 ≤ m) (hm : m ≤ 1 + 4 * roundoff) : 1 - 4 * roundoff ≤ balance m := by
  have hclosed : 1 - 4 * roundoff ≤ 1 ∧ 1 - 4 * roundoff ≤ roundTo (1 / (1 + 4 * roundoff)) := by decide +kernel
  rcases h.eq_or_lt with rfl | hpos
  · rw [balance_zero]
    exact hclosed.1
  · rw [balance_of_ne_zero hpos.ne']
    exact hclosed.2.trans (roundTo_mono (one_div_le_one_div_of_le hpos hm))

theorem one_le_balance (h : 0 ≤ m) (hm : m ≤ 1) : 1 ≤ balance m := by
  have hclosed : 1 ≤ roundTo (1 / 1) := by decide +kernel
  rcases h.eq_or_lt with rfl | hpos
  · rw [balance_zero]
  · rw [balance_of_ne_zero hpos.ne']
    exact hclosed.trans (roundTo_mono (one_div_le_one_div_of_le hpos hm))

theorem balance_le_one (hm : 1 ≤ m) : balance m ≤ 1 := by
  have hclosed : roundTo (1 / 1) ≤ 1 := by decide +kernel
  rw [balance_of_ne_zero (one_pos.trans_le hm).ne']
  exact (roundTo_mono (one_div_le_one_div_of_le one_pos hm)).trans hclosed

/-! ## Products with factors -/

/-- rounding moves a reciprocal by a part of itself, or by half of the last digit of all -/
theorem abs_mul_balance_sub_le (hpos : 0 < m) :
    |m * balance m - 1| ≤ max roundoff (m * twoPow (-1075)) := by
  have hmoved := abs_roundTo_sub_le (1 / m)
  have hscaled : m * balance m - 1 = m * (roundTo (1 / m) - 1 / m) := by
    rw [balance_of_ne_zero hpos.ne', mul_sub, mul_one_div_cancel hpos.ne']
  rw [abs_of_pos (one_div_pos.2 hpos)] at hmoved
  calc |m * balance m - 1| = m * |roundTo (1 / m) - 1 / m| := by rw [hscaled, abs_mul, abs_of_pos hpos]
    _ ≤ m * max (roundoff * (1 / m)) (twoPow (-1075)) := mul_le_mul_of_nonneg_left hmoved hpos.le
    _ = max roundoff (m * twoPow (-1075)) := by
        rw [mul_max_of_nonneg _ _ hpos.le, mul_left_comm, mul_one_div_cancel hpos.ne', mul_one]

/-- **Within four roundoffs of one.** -/
theorem mul_balance_close (hpos : 0 < m) (hm : Denoted m) :
    1 - 4 * roundoff ≤ m * balance m ∧ m * balance m ≤ 1 + 4 * roundoff := by
  have hlast : limit * twoPow (-1075) ≤ 4 * roundoff := by decide +kernel
  have hsmall : m * twoPow (-1075) ≤ limit * twoPow (-1075) :=
    mul_le_mul_of_nonneg_right ((le_abs_self m).trans hm.small.le) (twoPow_pos _).le
  have hclose := abs_le.1 ((abs_mul_balance_sub_le hpos).trans
    (max_le (by linarith [roundoff_pos] : roundoff ≤ 4 * roundoff) (hsmall.trans hlast)))
  constructor <;> linarith [hclose.1, hclose.2]

/-- a line that grows is brought closer to one -/
theorem mul_balance_close_of_le_one (hpos : 0 < m) (hm : m ≤ 1) : 1 - roundoff ≤ m * balance m := by
  have hlast : twoPow (-1075) ≤ roundoff := twoPow_le_iff.2 (by omega)
  have hsmall : m * twoPow (-1075) ≤ twoPow (-1075) := mul_le_of_le_one_left (twoPow_pos _).le hm
  have hclose := abs_le.1 ((abs_mul_balance_sub_le hpos).trans (max_le le_rfl (hsmall.trans hlast)))
  linarith [hclose.1]

/-- the doubles that are closest to one: there are thirteen -/
theorem exists_steps (hq : Denoted q) (hlow : 1 - 8 * roundoff ≤ q) (hhigh : q ≤ 1 + 4 * roundoff) :
    ∃ k : Nat, k < 13 ∧ q = 1 + (k - 8) * roundoff := by
  have hhalf : twoPow (-1) ≤ 1 - 8 * roundoff := by decide +kernel
  have hpos : 0 < q := (twoPow_pos (-1)).trans_le (hhalf.trans hlow)
  obtain ⟨n, hn⟩ : Multiple (-53) q := by
    have hmultiple := multiple_of_rounded hq.rounded hpos.ne' ((hhalf.trans hlow).trans (le_abs_self q))
    exact hmultiple.of_le (by decide)
  have hone : 2 ^ 53 * roundoff = 1 := by decide +kernel
  have hlow' : (2 ^ 53 - 8 : Rat) ≤ n := by
    apply le_of_mul_le_mul_right _ roundoff_pos
    rw [sub_mul, hone, roundoff, ← hn]
    exact hlow
  have hhigh' : (n : Rat) ≤ 2 ^ 53 + 4 := by
    apply le_of_mul_le_mul_right _ roundoff_pos
    rw [add_mul, hone, roundoff, ← hn]
    exact hhigh
  have hlowInt : 2 ^ 53 - 8 ≤ n := by exact_mod_cast hlow'
  have hhighInt : n ≤ 2 ^ 53 + 4 := by exact_mod_cast hhigh'
  obtain ⟨k, hk⟩ := Int.eq_ofNat_of_zero_le (sub_nonneg.2 hlowInt)
  have hcast : (n : Rat) - (2 ^ 53 - 8) = k := by exact_mod_cast congrArg (Int.cast : Int → Rat) hk
  refine ⟨k, by omega, ?_⟩
  calc q = n * roundoff := hn
    _ = 2 ^ 53 * roundoff + (n - (2 ^ 53 - 8) - 8) * roundoff := by ring
    _ = 1 + (k - 8) * roundoff := by rw [hone, hcast]

/-- for each of them, a factor of its own leads to one -/
theorem balance_steps : ∀ k < 13, roundTo ((1 + ((k : Nat) - 8) * roundoff) * balance (1 + (k - 8) * roundoff)) = 1 ∧
    balance (1 + (k - 8) * roundoff) ≤ 1 + 8 * roundoff ∧
    (1 - 5 * roundoff ≤ 1 + (k - 8) * roundoff → balance (1 + (k - 8) * roundoff) ≤ 1 + 6 * roundoff) := by
  decide +kernel

/-! ## Lines and their factors -/

/-- a line with the product `f` of its factors and the largest magnitude `p`, which is close to one and closer if the
line has grown; distances are counted in roundoffs -/
structure Near (wide close : Rat) (f p : Rat) : Prop where
  nonneg : 0 ≤ f
  factor : f ≤ limit * (1 - 7 * roundoff)
  peak : p = 0 ∨ 1 - wide * roundoff ≤ p ∧ p ≤ 1 + 4 * roundoff
  grown : 1 < f → p = 0 ∨ 1 - close * roundoff ≤ p

/-- a line that is zero, or whose largest magnitude is one -/
structure Settled (f p : Rat) : Prop where
  nonneg : 0 ≤ f
  rounded : roundTo f = f
  factor : f < limit
  peak : p = 0 ∨ p = 1

/-- a line whose factors and entries are all below the limit -/
structure Small (f p : Rat) : Prop where
  factor : |f| < limit
  peak : p < limit

/-- the bound on the first factors is itself below the limit, and moderate numbers are far from it -/
theorem factor_bound_lt : limit * (1 - 7 * roundoff) < limit := by decide +kernel

theorem moderate_lt : 1 + 4 * roundoff < limit := by decide +kernel

theorem Near.peak_le {wide close : Rat} (h : Near wide close f p) : p ≤ 1 + 4 * roundoff := by
  rcases h.peak with rfl | hpeak
  · linarith [roundoff_pos]
  · exact hpeak.2

theorem Near.small {wide close : Rat} (h : Near wide close f p) : Small f p :=
  ⟨by rw [abs_of_nonneg h.nonneg]; exact h.factor.trans_lt factor_bound_lt, h.peak_le.trans_lt moderate_lt⟩

theorem Near.not_faint (h : Near 8 5 f p) : p = 0 ∨ faintest < p := by
  have hclosed : faintest < 1 - 8 * roundoff := by decide +kernel
  exact h.peak.imp_right fun hpeak => hclosed.trans_le hpeak.1

theorem Settled.peak_le (h : Settled f p) : p ≤ 1 := by
  rcases h.peak with rfl | rfl
  · exact zero_le_one
  · exact le_rfl

theorem Settled.small (h : Settled f p) : Small f p := by
  have hone : 1 < limit := by decide +kernel
  exact ⟨by rw [abs_of_nonneg h.nonneg]; exact h.factor, h.peak_le.trans_lt hone⟩

/-- **The first factor.** -/
theorem Near.first (hm : Denoted m) (hnonneg : 0 ≤ m) (hfaint : m = 0 ∨ faintest < m) :
    Near 4 1 (roundTo (1 * balance m)) (roundTo (m * balance m)) := by
  have hclosed : roundTo (1 + 4 * roundoff) = 1 + 4 * roundoff ∧ roundTo (1 - 4 * roundoff) = 1 - 4 * roundoff ∧
      roundTo (1 - roundoff) = 1 - roundoff := by decide +kernel
  rw [one_mul, roundTo_balance]
  refine ⟨balance_nonneg hnonneg, balance_le hm hfaint, ?_, fun hgrown => ?_⟩
  · rcases hnonneg.eq_or_lt with rfl | hpos
    · exact .inl (by rw [zero_mul, roundTo_zero])
    obtain ⟨hlow, hhigh⟩ := mul_balance_close hpos hm
    exact .inr ⟨hclosed.2.1.symm.trans_le (roundTo_mono hlow), (roundTo_mono hhigh).trans_eq hclosed.1⟩
  · rcases hnonneg.eq_or_lt with rfl | hpos
    · exact .inl (by rw [zero_mul, roundTo_zero])
    have hle : m ≤ 1 := le_of_not_gt fun hlt => hgrown.not_ge (balance_le_one hlt.le)
    rw [one_mul]
    exact .inr (hclosed.2.2.symm.trans_le (roundTo_mono (mul_balance_close_of_le_one hpos hle)))

/-- **Crossing factors** take four more roundoffs off a line. -/
theorem Near.crossed (h : Near 4 1 f p) (hzero : p = 0 → q = 0) (hlow : roundTo (p * (1 - 4 * roundoff)) ≤ q)
    (hhigh : q ≤ 1 + 4 * roundoff) : Near 8 5 f q := by
  have hclosed : roundTo (1 - 8 * roundoff) = 1 - 8 * roundoff ∧ roundTo (1 - 5 * roundoff) = 1 - 5 * roundoff ∧
      0 ≤ 1 - 4 * roundoff ∧ 1 - 8 * roundoff ≤ (1 - 4 * roundoff) * (1 - 4 * roundoff) ∧
      1 - 5 * roundoff ≤ (1 - 1 * roundoff) * (1 - 4 * roundoff) := by decide +kernel
  obtain ⟨hwide, hclose, hpos, hwideProduct, hcloseProduct⟩ := hclosed
  refine ⟨h.nonneg, h.factor, h.peak.imp hzero fun hp => ⟨?_, hhigh⟩,
    fun hgrown => (h.grown hgrown).imp hzero fun hp => ?_⟩
  · have hproduct := hwideProduct.trans (mul_le_mul_of_nonneg_right hp.1 hpos)
    exact (hwide.symm.trans_le (roundTo_mono hproduct)).trans hlow
  · have hproduct := hcloseProduct.trans (mul_le_mul_of_nonneg_right hp hpos)
    exact (hclose.symm.trans_le (roundTo_mono hproduct)).trans hlow

theorem Near.peak_nonneg (h : Near 8 5 f q) : 0 ≤ q := by
  have hclosed : 0 ≤ 1 - 8 * roundoff := by decide +kernel
  rcases h.peak with rfl | hpeak
  · exact le_rfl
  · exact hclosed.trans hpeak.1

/-- the product of both factors, by whether the line has grown so far -/
theorem Near.mul_balance_le (h : Near 8 5 f q) (hq : Denoted q) : f * balance q ≤ limit * (1 - roundoff) := by
  have hclosed : limit * (1 - 7 * roundoff) * (1 + 6 * roundoff) ≤ limit * (1 - roundoff) ∧
      1 + 8 * roundoff ≤ limit * (1 - roundoff) ∧ limit * (1 - 7 * roundoff) ≤ limit * (1 - roundoff) ∧
      0 ≤ limit * (1 - 7 * roundoff) := by decide +kernel
  obtain ⟨hproduct, hsum, hfirst, hpos⟩ := hclosed
  have hb := balance_nonneg h.peak_nonneg
  by_cases hzero : q = 0
  · rw [hzero, balance_zero, mul_one]
    exact h.factor.trans hfirst
  obtain ⟨hlow, hhigh⟩ := h.peak.resolve_left hzero
  obtain ⟨k, hk, rfl⟩ := exists_steps hq hlow hhigh
  obtain ⟨-, hwide, hclose⟩ := balance_steps k hk
  rcases le_or_gt f 1 with hf | hf
  · exact (mul_le_of_le_one_left hb hf).trans (hwide.trans hsum)
  · have hbound := hclose ((h.grown hf).resolve_left hzero)
    exact (mul_le_mul h.factor hbound hb hpos).trans hproduct

/-- **The second factor.** -/
theorem Near.settled (h : Near 8 5 f q) (hq : Denoted q) :
    Settled (roundTo (f * balance q)) (roundTo (q * balance q)) := by
  have hlast : roundTo (limit * (1 - roundoff)) < limit := by decide +kernel
  have hnonneg : 0 ≤ f * balance q := mul_nonneg h.nonneg (balance_nonneg h.peak_nonneg)
  refine ⟨roundTo_nonneg hnonneg, roundTo_idem _, (roundTo_mono (h.mul_balance_le hq)).trans_lt hlast, ?_⟩
  by_cases hzero : q = 0
  · exact .inl (by rw [hzero, zero_mul, roundTo_zero])
  · obtain ⟨hlow, hhigh⟩ := h.peak.resolve_left hzero
    obtain ⟨k, hk, rfl⟩ := exists_steps hq hlow hhigh
    exact .inr (balance_steps k hk).1

end Scaled

end Halfspace
