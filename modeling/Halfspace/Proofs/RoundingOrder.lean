/-
Rounding keeps order and stays close.

Rounding to an integer is monotone (`nearestEven_mono`) and the same on both sides of zero (`nearestEven_neg_eq`).
Rounding to leading digits changes its grid from one power of two to the next; each power is on the grids of both its
sides, and so rounding is monotone across them as well (`significant_mono`). What is rounded stays when rounded again
(`significant_idem`), and is off by at most its last digit (`abs_significant_sub_le`).
-/
import Halfspace.Proofs.Rounding

namespace Halfspace

namespace Rounding

variable {x y q : Rat} {e k : Int} {precision : Nat} {lowest : Option Int}

/-! ## Integers -/

theorem floor_le_nearestEven (q : Rat) : q.floor ≤ nearestEven q := by
  unfold nearestEven
  dsimp only
  split_ifs <;> omega

theorem nearestEven_le_floor_add_one (q : Rat) : nearestEven q ≤ q.floor + 1 := by
  unfold nearestEven
  dsimp only
  split_ifs <;> omega

theorem nearestEven_mono (h : x ≤ y) : nearestEven x ≤ nearestEven y := by
  have hfloor : x.floor ≤ y.floor := Rat.floor_monotone h
  rcases hfloor.lt_or_eq with hlt | heq
  · calc nearestEven x ≤ x.floor + 1 := nearestEven_le_floor_add_one x
      _ ≤ y.floor := hlt
      _ ≤ nearestEven y := floor_le_nearestEven y
  · -- between the same two integers the one with the greater excess is not rounded lower
    unfold nearestEven
    dsimp only
    rw [heq]
    split_ifs <;> first | omega | linarith

theorem nearestEven_intCast (n : Int) : nearestEven n = n := by
  unfold nearestEven
  simp

/-- between two integers, the distances to them are exchanged when the sign changes -/
theorem floor_neg_of_ne (h : (q.floor : Rat) ≠ q) : (-q).floor = -q.floor - 1 := by
  have hlow : (q.floor : Rat) < q := lt_of_le_of_ne (Rat.floor_le q) h
  have hhigh : q < q.floor + 1 := by exact_mod_cast Rat.lt_floor_add_one q
  have hlow' : ((-q).floor : Rat) ≤ -q := Rat.floor_le (-q)
  have hhigh' : -q < (-q).floor + 1 := by exact_mod_cast Rat.lt_floor_add_one (-q)
  have habove : ((-q).floor : Rat) < -q.floor := by linarith
  have hbelow : (-q.floor - 2 : Rat) < (-q).floor := by linarith
  have habove' : (-q).floor < -q.floor := by exact_mod_cast habove
  have hbelow' : -q.floor - 2 < (-q).floor := by exact_mod_cast hbelow
  omega

theorem nearestEven_neg_eq (q : Rat) : nearestEven (-q) = -nearestEven q := by
  by_cases hint : (q.floor : Rat) = q
  · have hneg : -q = ((-q.floor : Int) : Rat) := by rw [Int.cast_neg, hint]
    rw [hneg, nearestEven_intCast]
    conv_rhs => rw [← hint, nearestEven_intCast]
  · have hexcess : -q - ((-q.floor - 1 : Int) : Rat) = 1 - (q - q.floor) := by
      push_cast
      ring
    unfold nearestEven
    dsimp only
    rw [floor_neg_of_ne hint, hexcess]
    split_ifs <;> first | omega | linarith

/-! ## Powers of two -/

theorem twoPow_eq (e : Int) : twoPow e = 2 ^ e := by
  cases e with
  | ofNat n => simp [twoPow, Rat.mkRat_eq_div]
  | negSucc n => simp [twoPow, Rat.mkRat_eq_div, zpow_negSucc]

theorem twoPow_add (d e : Int) : twoPow (d + e) = twoPow d * twoPow e := by
  rw [twoPow_eq, twoPow_eq, twoPow_eq, zpow_add₀ two_ne_zero]

theorem twoPow_lt_iff {d e : Int} : twoPow d < twoPow e ↔ d < e := by
  rw [twoPow_eq, twoPow_eq]
  exact zpow_lt_zpow_iff_right₀ one_lt_two

theorem twoPow_le_iff {d e : Int} : twoPow d ≤ twoPow e ↔ d ≤ e := by
  rw [twoPow_eq, twoPow_eq]
  exact zpow_le_zpow_iff_right₀ one_lt_two

/-! ## Grids -/

def Multiple (e : Int) (q : Rat) : Prop := ∃ n : Int, q = n * twoPow e

theorem multiple_onGrid (e : Int) (q : Rat) : Multiple e (onGrid e q) := ⟨_, rfl⟩

theorem multiple_twoPow (h : e ≤ k) : Multiple e (twoPow k) := by
  refine ⟨2 ^ (k - e).toNat, ?_⟩
  have hsplit : twoPow k = twoPow (k - e) * twoPow e := by rw [← twoPow_add, sub_add_cancel]
  rw [hsplit, twoPow_eq (k - e)]
  push_cast
  rw [← zpow_natCast, Int.toNat_of_nonneg (by omega)]

theorem Multiple.of_le {d : Int} (h : Multiple e q) (hd : d ≤ e) : Multiple d q := by
  obtain ⟨n, rfl⟩ := h
  obtain ⟨m, hm⟩ := multiple_twoPow hd
  exact ⟨n * m, by rw [hm]; push_cast; ring⟩

theorem onGrid_of_multiple (h : Multiple e q) : onGrid e q = q := by
  obtain ⟨n, rfl⟩ := h
  rw [onGrid, mul_div_cancel_right₀ _ (twoPow_pos e).ne', nearestEven_intCast]

theorem onGrid_mono (e : Int) (h : x ≤ y) : onGrid e x ≤ onGrid e y := by
  have hdigits : nearestEven (x / twoPow e) ≤ nearestEven (y / twoPow e) :=
    nearestEven_mono (div_le_div_of_nonneg_right h (twoPow_pos e).le)
  exact mul_le_mul_of_nonneg_right (Int.cast_le.2 hdigits) (twoPow_pos e).le

theorem onGrid_neg (e : Int) (q : Rat) : onGrid e (-q) = -onGrid e q := by
  rw [onGrid, onGrid, neg_div, nearestEven_neg_eq]
  push_cast
  ring

theorem abs_onGrid_sub_le (e : Int) (q : Rat) : |onGrid e q - q| ≤ twoPow e / 2 := by
  have hpos := twoPow_pos e
  have hclose := abs_nearestEven_sub_le (q / twoPow e)
  have hscaled : onGrid e q - q = (nearestEven (q / twoPow e) - q / twoPow e) * twoPow e := by
    rw [onGrid, sub_mul, div_mul_cancel₀ _ hpos.ne']
  rw [hscaled, abs_mul, abs_of_pos hpos]
  linarith [mul_le_mul_of_nonneg_right hclose hpos.le]

/-! ## Leading digits -/

theorem magnitude_eq (q : Rat) : q.abs = |q| := by
  rcases le_total 0 q with h | h
  · rw [Rat.abs_of_nonneg h, abs_of_nonneg h]
  · rw [Rat.abs_of_nonpos h, abs_of_nonpos h]

theorem leadingExponent_spec (h : q ≠ 0) :
    twoPow (leadingExponent q) ≤ |q| ∧ |q| < twoPow (leadingExponent q + 1) := by
  -- numerator and denominator are known up to a factor of two each, so their quotient up to a factor of four
  have hnum : q.num.natAbs ≠ 0 := Int.natAbs_ne_zero.2 (Rat.num_ne_zero.2 h)
  have habs : |q| = (q.num.natAbs : Rat) / q.den := by
    rw [Rat.abs_def, Rat.divInt_eq_div]
    rfl
  have hden : (0 : Rat) < q.den := Nat.cast_pos.2 q.den_pos
  have htop : twoPow (q.num.natAbs.log2 : Int) ≤ q.num.natAbs ∧
      (q.num.natAbs : Rat) < twoPow (q.num.natAbs.log2 + 1 : Int) := by
    rw [twoPow_eq, twoPow_eq]
    constructor
    · exact_mod_cast Nat.log2_self_le hnum
    · exact_mod_cast Nat.lt_log2_self
  have hbottom : twoPow (q.den.log2 : Int) ≤ q.den ∧ (q.den : Rat) < twoPow (q.den.log2 + 1 : Int) := by
    rw [twoPow_eq, twoPow_eq]
    constructor
    · exact_mod_cast Nat.log2_self_le q.den_nz
    · exact_mod_cast Nat.lt_log2_self
  generalize hk : (q.num.natAbs.log2 : Int) - (q.den.log2 : Int) = k
  have hlow : twoPow (k - 1) ≤ |q| := by
    rw [habs, le_div_iff₀ hden]
    calc twoPow (k - 1) * q.den ≤ twoPow (k - 1) * twoPow (q.den.log2 + 1 : Int) :=
          mul_le_mul_of_nonneg_left hbottom.2.le (twoPow_pos _).le
      _ = twoPow (q.num.natAbs.log2 : Int) := by
          rw [← twoPow_add]
          congr 1
          omega
      _ ≤ q.num.natAbs := htop.1
  have hhigh : |q| < twoPow (k + 1) := by
    rw [habs, div_lt_iff₀ hden]
    calc (q.num.natAbs : Rat) < twoPow (q.num.natAbs.log2 + 1 : Int) := htop.2
      _ = twoPow (k + 1) * twoPow (q.den.log2 : Int) := by
          rw [← twoPow_add]
          congr 1
          omega
      _ ≤ twoPow (k + 1) * q.den := mul_le_mul_of_nonneg_left hbottom.1 (twoPow_pos _).le
  have hunfold : leadingExponent q = if twoPow k ≤ |q| then k else k - 1 := by
    rw [leadingExponent, hk, magnitude_eq]
  rw [hunfold]
  split_ifs with hle
  · exact ⟨hle, hhigh⟩
  · rw [sub_add_cancel]
    exact ⟨hlow, not_le.1 hle⟩

theorem leadingExponent_neg (q : Rat) : leadingExponent (-q) = leadingExponent q := by
  simp [leadingExponent]

theorem leadingExponent_mono (hx : x ≠ 0) (h : |x| ≤ |y|) : leadingExponent x ≤ leadingExponent y := by
  have hy : y ≠ 0 := abs_pos.1 ((abs_pos.2 hx).trans_le h)
  have hlt : leadingExponent x < leadingExponent y + 1 :=
    twoPow_lt_iff.1 (((leadingExponent_spec hx).1.trans h).trans_lt (leadingExponent_spec hy).2)
  omega

/-- the exponent at which the digits of a number end -/
theorem gridExponent_eq (precision : Nat) (lowest : Option Int) (q : Rat) :
    gridExponent precision lowest q =
      lowest.elim (leadingExponent q + 1 - precision) (max (leadingExponent q + 1 - precision)) := by
  unfold gridExponent
  cases lowest with
  | none => rfl
  | some l =>
    dsimp only [Option.elim]
    split_ifs <;> omega

theorem gridExponent_neg (precision : Nat) (lowest : Option Int) (q : Rat) :
    gridExponent precision lowest (-q) = gridExponent precision lowest q := by
  simp only [gridExponent, leadingExponent_neg]

theorem significant_neg (precision : Nat) (lowest : Option Int) (q : Rat) :
    significant precision lowest (-q) = -significant precision lowest q := by
  unfold significant
  by_cases hq : q = 0
  · simp [hq]
  · rw [if_neg hq, if_neg (neg_ne_zero.2 hq), gridExponent_neg, onGrid_neg]

/-- a greater number has the same grid, or a coarser one on which its leading power of two lies -/
theorem gridExponent_mono (hprecision : 1 ≤ precision) (lowest : Option Int) (hx : x ≠ 0) (h : |x| ≤ |y|) :
    gridExponent precision lowest x = gridExponent precision lowest y ∨
      gridExponent precision lowest x < gridExponent precision lowest y ∧
        leadingExponent x < leadingExponent y ∧ gridExponent precision lowest y ≤ leadingExponent y := by
  have hleading := leadingExponent_mono hx h
  rw [gridExponent_eq, gridExponent_eq]
  cases lowest <;> simp only [Option.elim] <;> omega

theorem significant_of_ne_zero (precision : Nat) (lowest : Option Int) (hq : q ≠ 0) :
    significant precision lowest q = onGrid (gridExponent precision lowest q) q := if_neg hq

/-! ## Order -/

theorem significant_mono_of_pos (hprecision : 1 ≤ precision) (lowest : Option Int) (hx : 0 < x) (h : x ≤ y) :
    significant precision lowest x ≤ significant precision lowest y := by
  have hy : 0 < y := hx.trans_le h
  have hxy : |x| ≤ |y| := by rwa [abs_of_pos hx, abs_of_pos hy]
  rw [significant_of_ne_zero _ _ hx.ne', significant_of_ne_zero _ _ hy.ne']
  rcases gridExponent_mono hprecision lowest hx.ne' hxy with heq | ⟨hlt, hleading, hgrid⟩
  · rw [heq]
    exact onGrid_mono _ h
  · -- the leading power of two of the greater number lies between them, and on both grids
    have hpower := hlt.le.trans hgrid
    have hbelow : x ≤ twoPow (leadingExponent y) := by
      have hhigh := (leadingExponent_spec hx.ne').2
      rw [abs_of_pos hx] at hhigh
      exact hhigh.le.trans (twoPow_le_iff.2 hleading)
    have habove : twoPow (leadingExponent y) ≤ y := by
      have hlow := (leadingExponent_spec hy.ne').1
      rwa [abs_of_pos hy] at hlow
    calc onGrid (gridExponent precision lowest x) x
        ≤ onGrid (gridExponent precision lowest x) (twoPow (leadingExponent y)) := onGrid_mono _ hbelow
      _ = twoPow (leadingExponent y) := onGrid_of_multiple (multiple_twoPow hpower)
      _ = onGrid (gridExponent precision lowest y) (twoPow (leadingExponent y)) :=
          (onGrid_of_multiple (multiple_twoPow hgrid)).symm
      _ ≤ onGrid (gridExponent precision lowest y) y := onGrid_mono _ habove

theorem significant_mono (hprecision : 1 ≤ precision) (lowest : Option Int) (h : x ≤ y) :
    significant precision lowest x ≤ significant precision lowest y := by
  rcases lt_trichotomy x 0 with hx | rfl | hx
  · have hnonpos : significant precision lowest x ≤ 0 := by
      have hneg := significant_nonneg precision lowest (neg_nonneg.2 hx.le)
      rw [significant_neg] at hneg
      linarith
    rcases lt_or_ge y 0 with hy | hy
    · have hmirrored := significant_mono_of_pos hprecision lowest (neg_pos.2 hy) (neg_le_neg h)
      rw [significant_neg, significant_neg] at hmirrored
      linarith
    · exact hnonpos.trans (significant_nonneg precision lowest hy)
  · rw [significant, if_pos rfl]
    exact significant_nonneg precision lowest h
  · exact significant_mono_of_pos hprecision lowest hx h

/-! ## Rounding again -/

theorem significant_of_multiple (h : Multiple (gridExponent precision lowest q) q) :
    significant precision lowest q = q := by
  unfold significant
  split_ifs with hq
  · exact hq.symm
  · exact onGrid_of_multiple h

theorem significant_idem_of_pos (hprecision : 1 ≤ precision) (lowest : Option Int) (hx : 0 < x) :
    significant precision lowest (significant precision lowest x) = significant precision lowest x := by
  apply significant_of_multiple
  rw [significant_of_ne_zero _ _ hx.ne']
  have hnonneg : 0 ≤ onGrid (gridExponent precision lowest x) x := onGrid_nonneg _ hx.le
  have hmultiple := multiple_onGrid (gridExponent precision lowest x) x
  -- the next power of two that is on the grid is not passed
  obtain ⟨top, htop⟩ : ∃ top, top = max (leadingExponent x + 1) (gridExponent precision lowest x) := ⟨_, rfl⟩
  have hbelow : x ≤ twoPow top := by
    have hhigh := (leadingExponent_spec hx.ne').2
    rw [abs_of_pos hx] at hhigh
    exact hhigh.le.trans (twoPow_le_iff.2 (by omega))
  have hle : onGrid (gridExponent precision lowest x) x ≤ twoPow top := by
    rw [← onGrid_of_multiple (multiple_twoPow (by omega : gridExponent precision lowest x ≤ top))]
    exact onGrid_mono _ hbelow
  generalize onGrid (gridExponent precision lowest x) x = r at hnonneg hmultiple hle
  rcases hnonneg.eq_or_lt with rfl | hpos
  · exact ⟨0, by simp⟩
  have hspec := leadingExponent_spec hpos.ne'
  rw [abs_of_pos hpos] at hspec
  rcases hle.eq_or_lt with rfl | hlt
  · apply multiple_twoPow
    have hleading : leadingExponent (twoPow top) ≤ top := twoPow_le_iff.1 hspec.1
    rw [gridExponent_eq] at htop ⊢
    cases lowest <;> simp only [Option.elim] at htop ⊢ <;> omega
  · apply hmultiple.of_le
    have hleading : leadingExponent r < top := twoPow_lt_iff.1 (hspec.1.trans_lt hlt)
    rw [gridExponent_eq] at htop ⊢
    rw [gridExponent_eq]
    cases lowest <;> simp only [Option.elim] at htop ⊢ <;> omega

/-- **Rounding again** changes nothing. -/
theorem significant_idem (hprecision : 1 ≤ precision) (lowest : Option Int) (x : Rat) :
    significant precision lowest (significant precision lowest x) = significant precision lowest x := by
  rcases lt_trichotomy x 0 with hx | rfl | hx
  · have hmirrored := significant_idem_of_pos hprecision lowest (neg_pos.2 hx)
    rw [significant_neg, significant_neg] at hmirrored
    exact neg_injective hmirrored
  · have hzero : significant precision lowest 0 = 0 := if_pos rfl
    rw [hzero, hzero]
  · exact significant_idem_of_pos hprecision lowest hx

/-! ## Distances -/

/-- **Distances.** Without a lowest exponent a number is rounded by at most a half of its last digit. -/
theorem abs_significant_sub_le (precision : Nat) (q : Rat) :
    |significant precision none q - q| ≤ twoPow (-precision) * |q| := by
  by_cases hq : q = 0
  · simp [significant, hq]
  have hhalf : twoPow (gridExponent precision none q) / 2 = twoPow (-precision) * twoPow (leadingExponent q) := by
    have hexponent : gridExponent precision none q = -precision + leadingExponent q + 1 := by
      rw [gridExponent_eq]
      simp only [Option.elim]
      omega
    have htwo : twoPow 1 = 2 := rfl
    rw [hexponent, twoPow_add, twoPow_add, htwo]
    ring
  rw [significant_of_ne_zero _ _ hq]
  calc |onGrid (gridExponent precision none q) q - q| ≤ twoPow (gridExponent precision none q) / 2 :=
        abs_onGrid_sub_le _ q
    _ = twoPow (-precision) * twoPow (leadingExponent q) := hhalf
    _ ≤ twoPow (-precision) * |q| := mul_le_mul_of_nonneg_left (leadingExponent_spec hq).1 (twoPow_pos _).le

end Rounding

end Halfspace
