/-
Scaling passes over values.

A grid has entries, and a factor for each of its lines in both directions. A pass over the rows levels each of them by
the factor that its largest magnitude asks for (`Grid.level`); a pass over the columns is one over the rows of the turned
grid. A pass does what one factor does to the lines that it levels (`lines_first`, `lines_settled`), and to the lines that
cross them no more than the smallest of its factors (`roundTo_le_cross`), while no crossing line is larger than the
largest that was levelled (`cross_le`).
-/
import Halfspace.Proofs.Scaling.Factors

namespace Halfspace

open Double

namespace Scaled

/-! ## Largest magnitudes -/

/-- the largest magnitude among the first numbers of a line -/
def peak : Nat → (Nat → Rat) → Rat
  | 0, _ => 0
  | n + 1, line => max (peak n line) |line n|

section Peaks

variable {n i : Nat} {line : Nat → Rat} {b : Rat}

theorem peak_nonneg (n : Nat) (line : Nat → Rat) : 0 ≤ peak n line := by
  cases n with
  | zero => exact le_rfl
  | succ n => exact (abs_nonneg _).trans (le_max_right _ _)

theorem abs_le_peak (line : Nat → Rat) (hi : i < n) : |line i| ≤ peak n line := by
  induction n with
  | zero => omega
  | succ n ih =>
    rcases Nat.lt_succ_iff_lt_or_eq.1 hi with hlt | rfl
    · exact (ih hlt).trans (le_max_left _ _)
    · exact le_max_right _ _

theorem exists_peak (n : Nat) (line : Nat → Rat) : peak n line = 0 ∨ ∃ i < n, peak n line = |line i| := by
  induction n with
  | zero => exact .inl rfl
  | succ n ih =>
    rcases max_choice (peak n line) |line n| with hmax | hmax
    · rw [peak, hmax]
      exact ih.imp_right fun ⟨i, hi, heq⟩ => ⟨i, hi.trans n.lt_succ_self, heq⟩
    · exact .inr ⟨n, n.lt_succ_self, hmax⟩

theorem peak_le (hb : 0 ≤ b) (h : ∀ i < n, |line i| ≤ b) : peak n line ≤ b := by
  rcases exists_peak n line with hzero | ⟨i, hi, heq⟩
  · exact hzero.trans_le hb
  · exact heq.trans_le (h i hi)

/-- rounding and factors keep the order of magnitudes, and so the largest one -/
theorem peak_scaled (hb : 0 ≤ b) (n : Nat) (line : Nat → Rat) :
    peak n (fun i => roundTo (line i * b)) = roundTo (peak n line * b) := by
  induction n with
  | zero => rw [peak, peak, zero_mul, roundTo_zero]
  | succ n ih =>
    have hmono : Monotone fun q : Rat => roundTo (q * b) := fun x y h =>
      roundTo_mono (mul_le_mul_of_nonneg_right h hb)
    rw [peak, peak, ih, abs_roundTo, abs_mul, abs_of_nonneg hb]
    exact (hmono.map_max (a := peak n line) (b := |line n|)).symm

theorem denoted_peak (h : ∀ i < n, Denoted (line i)) : Denoted (peak n line) := by
  have hzero : Denoted 0 := ⟨roundTo_zero, by rw [abs_zero]; exact Rounding.twoPow_pos 1024⟩
  rcases exists_peak n line with heq | ⟨i, hi, heq⟩
  · exact heq ▸ hzero
  · rw [heq]
    exact ⟨by rw [← abs_roundTo, (h i hi).rounded], by rw [abs_abs]; exact (h i hi).small⟩

end Peaks

/-! ## Grids -/

/-- entries, and the product of the factors so far for each row and for each column -/
structure Grid (α : Type) where
  entry : Nat → Nat → α
  row : Nat → α
  column : Nat → α

namespace Grid

variable {height width i j : Nat} {v : Grid Rat} {b : Rat} {S T : Rat → Rat → Prop}

def turn {α : Type} (g : Grid α) : Grid α := ⟨fun i j => g.entry j i, g.column, g.row⟩

def level (width : Nat) (v : Grid Rat) : Grid Rat where
  entry i j := roundTo (v.entry i j * balance (peak width (v.entry i)))
  row i := roundTo (v.row i * balance (peak width (v.entry i)))
  column := v.column

@[simp] theorem turn_entry {α : Type} (g : Grid α) (i j : Nat) : g.turn.entry i j = g.entry j i := rfl

@[simp] theorem level_entry (width : Nat) (v : Grid Rat) (i j : Nat) :
    (v.level width).entry i j = roundTo (v.entry i j * balance (peak width (v.entry i))) := rfl

@[simp] theorem level_row (width : Nat) (v : Grid Rat) (i : Nat) :
    (v.level width).row i = roundTo (v.row i * balance (peak width (v.entry i))) := rfl

/-- a property of the rows: of the product of the factors and the largest magnitude -/
def Lines (S : Rat → Rat → Prop) (height width : Nat) (v : Grid Rat) : Prop :=
  ∀ i < height, S (v.row i) (peak width (v.entry i))

theorem Lines.imp (hST : ∀ {f p}, S f p → T f p) (h : v.Lines S height width) : v.Lines T height width :=
  fun i hi => hST (h i hi)

def AllDenoted (height width : Nat) (v : Grid Rat) : Prop := ∀ i < height, ∀ j < width, Denoted (v.entry i j)

theorem AllDenoted.turn (h : v.AllDenoted height width) : v.turn.AllDenoted width height :=
  fun j hj i hi => h i hi j hj

def NoneFaint (height width : Nat) (v : Grid Rat) : Prop :=
  ∀ i < height, peak width (v.entry i) = 0 ∨ faintest < peak width (v.entry i)

/-- a pass over the rows stays below the limit -/
structure Passable (height width : Nat) (v : Grid Rat) : Prop where
  denoted : v.AllDenoted height width
  noneFaint : v.NoneFaint height width
  small : (v.level width).Lines Small height width

/-! ## The lines that are levelled -/

theorem peak_level (v : Grid Rat) (width i : Nat) : peak width ((v.level width).entry i) =
    roundTo (peak width (v.entry i) * balance (peak width (v.entry i))) :=
  peak_scaled (balance_nonneg (peak_nonneg _ _)) width (v.entry i)

theorem lines_first (hentry : v.AllDenoted height width) (hrow : ∀ i < height, v.row i = 1)
    (hfaint : v.NoneFaint height width) : (v.level width).Lines (Near 4 1) height width := by
  intro i hi
  rw [peak_level, level_row, hrow i hi]
  exact Near.first (denoted_peak (hentry i hi)) (peak_nonneg _ _) (hfaint i hi)

theorem lines_settled (hentry : v.AllDenoted height width) (h : v.Lines (Near 8 5) height width) :
    (v.level width).Lines Settled height width := by
  intro i hi
  rw [peak_level]
  exact (h i hi).settled (denoted_peak (hentry i hi))

/-- entries that are no larger than a number of moderate size can be doubles after the pass -/
theorem allDenoted_level (hb : b < limit) (h : ∀ i < height, peak width ((v.level width).entry i) ≤ b) :
    (v.level width).AllDenoted height width :=
  fun i hi _ hj => ⟨roundTo_idem _, ((abs_le_peak _ hj).trans (h i hi)).trans_lt hb⟩

/-! ## The lines that cross them -/

/-- no crossing line is larger than the lines that it crosses -/
theorem cross_le (hb : 0 ≤ b) (h : ∀ i < height, peak width (v.entry i) ≤ b) (hj : j < width) :
    peak height (v.turn.entry j) ≤ b :=
  peak_le hb fun i hi => (abs_le_peak _ hj).trans (h i hi)

theorem cross_zero (h : peak height (v.turn.entry j) = 0) : peak height ((v.level width).turn.entry j) = 0 := by
  apply le_antisymm _ (peak_nonneg _ _)
  apply peak_le le_rfl
  intro i hi
  have hentry : |v.turn.entry j i| ≤ 0 := (abs_le_peak _ hi).trans_eq h
  rw [turn_entry, abs_nonpos_iff] at hentry
  rw [turn_entry, level_entry, hentry, zero_mul, roundTo_zero, abs_zero]

/-- **Crossing lines** keep the part that the smallest factor leaves them. -/
theorem roundTo_le_cross (hb : 0 ≤ b) (h : ∀ i < height, b ≤ balance (peak width (v.entry i))) :
    roundTo (peak height (v.turn.entry j) * b) ≤ peak height ((v.level width).turn.entry j) := by
  rcases exists_peak height (v.turn.entry j) with hzero | ⟨i, hi, hpeak⟩
  · rw [hzero, zero_mul, roundTo_zero]
    exact peak_nonneg _ _
  · have hfactor := h i hi
    calc roundTo (peak height (v.turn.entry j) * b)
        ≤ roundTo (peak height (v.turn.entry j) * balance (peak width (v.entry i))) :=
          roundTo_mono (mul_le_mul_of_nonneg_left hfactor (peak_nonneg _ _))
      _ = |(v.level width).turn.entry j i| := by
          rw [hpeak, turn_entry, turn_entry, level_entry, abs_roundTo, abs_mul, abs_of_nonneg (hb.trans hfactor)]
      _ ≤ peak height ((v.level width).turn.entry j) := abs_le_peak _ hi

theorem lines_crossed (h : v.turn.Lines (Near 4 1) width height)
    (hbefore : ∀ i < height, peak width (v.entry i) ≤ 1 + 4 * roundoff)
    (hafter : ∀ i < height, peak width ((v.level width).entry i) ≤ 1 + 4 * roundoff) :
    (v.level width).turn.Lines (Near 8 5) width height := by
  have hclosed : 0 ≤ 1 - 4 * roundoff ∧ 0 ≤ 1 + 4 * roundoff := by decide +kernel
  intro j hj
  refine (h j hj).crossed cross_zero ?_ (cross_le hclosed.2 hafter hj)
  exact roundTo_le_cross hclosed.1 fun i hi => le_balance (peak_nonneg _ _) (hbefore i hi)

/-- lines that are settled stay so when lines of magnitudes up to one are levelled across them -/
theorem lines_settled_crossed (h : v.turn.Lines Settled width height)
    (hbefore : ∀ i < height, peak width (v.entry i) ≤ 1)
    (hafter : ∀ i < height, peak width ((v.level width).entry i) ≤ 1) :
    (v.level width).turn.Lines Settled width height := by
  have hone : roundTo (1 * 1) = 1 := by decide +kernel
  intro j hj
  have hline := h j hj
  refine ⟨hline.nonneg, hline.rounded, hline.factor, hline.peak.imp cross_zero fun hpeak => ?_⟩
  apply le_antisymm (cross_le zero_le_one hafter hj)
  have hkept : roundTo (peak height (v.turn.entry j) * 1) ≤ peak height ((v.level width).turn.entry j) :=
    roundTo_le_cross zero_le_one fun i hi => one_le_balance (peak_nonneg _ _) (hbefore i hi)
  rwa [hpeak, hone] at hkept

/-! ## Rounds -/

def relevel (height width : Nat) (v : Grid Rat) : Grid Rat := ((v.level width).turn.level height).turn

/-- what one round leaves of any grid that it does not make infinite -/
structure Tempered (height width : Nat) (v : Grid Rat) : Prop where
  denoted : v.AllDenoted height width
  rows : v.Lines (Near 8 5) height width
  columns : v.turn.Lines (Near 4 1) width height

/-- what two rounds leave of it -/
structure Even (height width : Nat) (v : Grid Rat) : Prop where
  denoted : v.AllDenoted height width
  rows : v.Lines Settled height width
  columns : v.turn.Lines Settled width height

/-- **The first round.** -/
theorem tempered_relevel (hentry : v.AllDenoted height width) (hrow : ∀ i < height, v.row i = 1)
    (hcolumn : ∀ j < width, v.column j = 1) (hrows : v.NoneFaint height width)
    (hcolumns : (v.level width).turn.NoneFaint width height) :
    v.Passable height width ∧ (v.level width).turn.Passable width height ∧
      (v.relevel height width).Tempered height width := by
  have hmoderate : 0 ≤ 1 + 4 * roundoff := by linarith [roundoff_pos]
  have hfirst := lines_first hentry hrow hrows
  have hdenoted := allDenoted_level moderate_lt fun i hi => (hfirst i hi).peak_le
  have hsecond := lines_first hdenoted.turn hcolumn hcolumns
  refine ⟨⟨hentry, hrows, hfirst.imp Near.small⟩, ⟨hdenoted.turn, hcolumns, hsecond.imp Near.small⟩, ?_, ?_, hsecond⟩
  · exact (allDenoted_level moderate_lt fun j hj => (hsecond j hj).peak_le).turn
  · -- the columns are levelled across rows that were levelled before them
    exact lines_crossed (v := (v.level width).turn) hfirst
      (fun j hj => cross_le hmoderate (fun i hi => (hfirst i hi).peak_le) hj) fun j hj => (hsecond j hj).peak_le

/-- **The second round.** -/
theorem even_relevel (h : v.Tempered height width) :
    v.Passable height width ∧ (v.level width).turn.Passable width height ∧
      (v.relevel height width).Even height width := by
  have hone : 1 < limit ∧ 1 ≤ 1 + 4 * roundoff := by decide +kernel
  have hfirst := lines_settled h.denoted h.rows
  have hdenoted := allDenoted_level hone.1 fun i hi => (hfirst i hi).peak_le
  have hcrossed : (v.level width).turn.Lines (Near 8 5) width height :=
    lines_crossed h.columns (fun i hi => (h.rows i hi).peak_le) fun i hi => (hfirst i hi).peak_le.trans hone.2
  have hsecond := lines_settled hdenoted.turn hcrossed
  refine ⟨⟨h.denoted, h.rows.imp Near.not_faint, hfirst.imp Settled.small⟩,
    ⟨hdenoted.turn, hcrossed.imp Near.not_faint, hsecond.imp Settled.small⟩, ?_, ?_, hsecond⟩
  · exact (allDenoted_level hone.1 fun j hj => (hsecond j hj).peak_le).turn
  · exact lines_settled_crossed (v := (v.level width).turn) hfirst
      (fun j hj => cross_le zero_le_one (fun i hi => (hfirst i hi).peak_le) hj) fun j hj => (hsecond j hj).peak_le

end Grid

end Scaled

end Halfspace
