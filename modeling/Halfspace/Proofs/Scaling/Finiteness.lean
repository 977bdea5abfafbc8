/-
Which matrices scaling leaves finite.

Every factor is a rounded reciprocal, and the reciprocal of a faint line is infinite. No other way out of the finite
numbers exists: if no row is faint, and after the first pass over the rows no column is, then the first round leaves
every line within eight roundoffs of one, the second leaves it at one, and from then on nothing changes. So everything
is decided in the first round, for any number of rounds.
- `isFinite_rounds_iff`: when everything is finite;
- `scaleMatrix_settles`: what two rounds achieve then, and no later one changes.
-/
import Halfspace.Proofs.Scaling.Passes

namespace Halfspace

open Double

namespace Scaled

/-! ## Lines of doubles -/

def Faint (line : List Double) : Prop :=
  Double.zero.lt (largest line) = true ∧ (largest line).le (finite faintest) = true

instance : DecidablePred Faint := fun _ => inferInstanceAs (Decidable (_ ∧ _))

section Lines

variable {n : Nat} {a : Nat → Double} {line : Nat → Rat}

theorem largest_line (h : ∀ j < n, (a j).value? = some (line j)) :
    largest ((List.range n).map a) = finite (peak n line) := by
  induction n with
  | zero => rfl
  | succ n ih =>
    have hrest : largest ((List.range n).map a) = finite (peak n line) :=
      ih fun j hj => h j (hj.trans n.lt_succ_self)
    unfold largest at hrest ⊢
    rw [List.range_succ, List.map_append, List.foldl_append, hrest]
    show (finite (peak n line)).max (a n).abs = _
    rw [abs_eq_finite (h n n.lt_succ_self), max_finite]
    rfl

theorem faint_line (h : ∀ j < n, (a j).value? = some (line j)) :
    Faint ((List.range n).map a) ↔ ¬(peak n line = 0 ∨ faintest < peak n line) := by
  rw [Faint, largest_line h]
  simp only [Double.zero, le, lt, isNaN, Bool.not_false, Bool.true_and, Bool.not_eq_true', decide_eq_true_eq,
    decide_eq_false_iff_not, not_or, not_lt]
  exact and_congr_left' (peak_nonneg n line).lt_iff_ne'

theorem factor_line (h : ∀ j < n, (a j).value? = some (line j)) (hfinite : balance (peak n line) < limit) :
    factor ((List.range n).map a) = finite (balance (peak n line)) := by
  have hpeak := peak_nonneg n line
  have hfactor := balance_nonneg hpeak
  rw [factor, largest_line h]
  rcases hpeak.eq_or_lt with hzero | hpos
  · rw [← hzero, balance_zero]
    rfl
  · have hlt : Double.zero.lt (finite (peak n line)) = true := decide_eq_true hpos
    rw [balance_of_ne_zero hpos.ne'] at hfinite hfactor ⊢
    rw [if_pos hlt, one_div_finite hpos, nearest_of_nonneg hfactor hfinite]

theorem factor_faint (h : ∀ j < n, (a j).value? = some (line j)) (hpos : 0 < peak n line)
    (hfaint : peak n line ≤ faintest) : factor ((List.range n).map a) = posInf := by
  have hlt : Double.zero.lt (finite (peak n line)) = true := decide_eq_true hpos
  have hlarge := limit_le_balance hpos hfaint
  rw [balance_of_ne_zero hpos.ne'] at hlarge
  rw [factor, largest_line h, if_pos hlt, one_div_finite hpos, nearest_of_limit_le _ hlarge]

end Lines

/-! ## Grids of doubles -/

structure IsFinite (s : Scaled) : Prop where
  matrix : ∀ row ∈ s.matrix, ∀ a ∈ row, a.isFinite = true
  rowFactors : ∀ a ∈ s.rowFactors, a.isFinite = true
  columnFactors : ∀ a ∈ s.columnFactors, a.isFinite = true

instance : DecidablePred IsFinite := fun _ =>
  decidable_of_iff (_ ∧ _ ∧ _) ⟨fun h => ⟨h.1, h.2.1, h.2.2⟩, fun h => ⟨h.matrix, h.rowFactors, h.columnFactors⟩⟩

namespace Grid

variable {height width i j n : Nat} {g g' : Grid Double} {v : Grid Rat} {S : Rat → Rat → Prop}

/-- the lists of a grid, cut to size -/
def table (height width : Nat) (g : Grid Double) : Scaled :=
  ⟨(List.range height).map fun i => (List.range width).map (g.entry i), (List.range height).map g.row,
    (List.range width).map g.column⟩

def sweep (width : Nat) (g : Grid Double) : Grid Double where
  entry i j := (g.entry i j).mul (factor ((List.range width).map (g.entry i)))
  row i := (g.row i).mul (factor ((List.range width).map (g.entry i)))
  column := g.column

def round (height width : Nat) (g : Grid Double) : Grid Double := ((g.sweep width).turn.sweep height).turn

theorem column_table (hj : j < width) :
    Scaled.column (g.table height width).matrix j = (List.range height).map (g.turn.entry j) := by
  simp [Scaled.column, table, turn, hj]

theorem scaleRows_table : (g.table height width).scaleRows = (g.sweep width).table height width := by
  simp [scaleRows, table, sweep, Function.comp_def, List.zipWith_map]

theorem scaleColumns_table :
    (g.table height width).scaleColumns = (g.turn.sweep height).turn.table height width := by
  have hfactors : (List.range (g.table height width).columnFactors.length).map
        (fun j => factor (Scaled.column (g.table height width).matrix j)) =
      (List.range width).map fun j => factor ((List.range height).map (g.turn.entry j)) := by
    have hlength : (g.table height width).columnFactors.length = width := by simp [table]
    rw [hlength]
    exact List.map_congr_left fun j hj => by rw [column_table (List.mem_range.1 hj)]
  rw [scaleColumns, hfactors]
  simp [table, sweep, turn, Function.comp_def, List.zipWith_map]

theorem scale_table : (g.table height width).scaleRows.scaleColumns = (g.round height width).table height width := by
  rw [scaleRows_table, scaleColumns_table, round]

theorem rounds_table (n : Nat) (g : Grid Double) :
    rounds n (g.table height width) = ((round height width)^[n] g).table height width := by
  induction n generalizing g with
  | zero => rfl
  | succ n ih => rw [rounds, scale_table, ih, Function.iterate_succ_apply]

/-- grids that agree within a size -/
structure Agrees (height width : Nat) (g g' : Grid Double) : Prop where
  entry : ∀ i < height, ∀ j < width, g.entry i j = g'.entry i j
  row : ∀ i < height, g.row i = g'.row i
  column : ∀ j < width, g.column j = g'.column j

theorem Agrees.turn (h : Agrees height width g g') : Agrees width height g.turn g'.turn :=
  ⟨fun j hj i hi => h.entry i hi j hj, h.column, h.row⟩

theorem Agrees.table_eq (h : Agrees height width g g') : g.table height width = g'.table height width := by
  simp only [table, Scaled.mk.injEq]
  refine ⟨List.map_congr_left fun i hi => ?_, List.map_congr_left fun i hi => h.row i (List.mem_range.1 hi),
    List.map_congr_left fun j hj => h.column j (List.mem_range.1 hj)⟩
  exact List.map_congr_left fun j hj => h.entry i (List.mem_range.1 hi) j (List.mem_range.1 hj)

/-! ## Doubles and their values -/

/-- a grid of doubles and what they denote -/
structure Reads (height width : Nat) (g : Grid Double) (v : Grid Rat) : Prop where
  entry : ∀ i < height, ∀ j < width, (g.entry i j).value? = some (v.entry i j)
  row : ∀ i < height, (g.row i).value? = some (v.row i)
  column : ∀ j < width, (g.column j).value? = some (v.column j)

theorem Reads.turn (h : Reads height width g v) : Reads width height g.turn v.turn :=
  ⟨fun j hj i hi => h.entry i hi j hj, h.column, h.row⟩

theorem Reads.isFinite (h : Reads height width g v) : (g.table height width).IsFinite where
  matrix := by
    simp only [table, List.mem_map, List.mem_range]
    rintro _ ⟨i, hi, rfl⟩ a ha
    obtain ⟨j, hj, rfl⟩ := List.mem_map.1 ha
    exact isFinite_of_value (h.entry i hi j (List.mem_range.1 hj))
  rowFactors := by
    simp only [table, List.mem_map, List.mem_range]
    rintro _ ⟨i, hi, rfl⟩
    exact isFinite_of_value (h.row i hi)
  columnFactors := by
    simp only [table, List.mem_map, List.mem_range]
    rintro _ ⟨j, hj, rfl⟩
    exact isFinite_of_value (h.column j hj)

/-- a pass is one over the values as long as it stays below the limit -/
theorem Reads.sweep (h : Reads height width g v) (hpass : v.Passable height width) :
    Reads height width (g.sweep width) (v.level width) := by
  have hfactor : ∀ i < height, (factor ((List.range width).map (g.entry i))).value? =
      some (balance (peak width (v.entry i))) := by
    intro i hi
    have hle := balance_le (denoted_peak (hpass.denoted i hi)) (hpass.noneFaint i hi)
    rw [factor_line (h.entry i hi) (hle.trans_lt factor_bound_lt)]
    rfl
  refine ⟨fun i hi j hj => ?_, fun i hi => ?_, h.column⟩
  · apply value_mul (h.entry i hi j hj) (hfactor i hi)
    exact (abs_le_peak ((v.level width).entry i) hj).trans_lt (hpass.small i hi).peak
  · exact value_mul (h.row i hi) (hfactor i hi) (hpass.small i hi).factor

theorem Reads.round (h : Reads height width g v) (hrows : v.Passable height width)
    (hcolumns : (v.level width).turn.Passable width height) :
    Reads height width (g.round height width) (v.relevel height width) :=
  ((h.sweep hrows).turn.sweep hcolumns).turn

/-- a pass over lines that are settled leaves everything as it is -/
theorem Reads.agrees_sweep (h : Reads height width g v) (hentry : v.AllDenoted height width)
    (hlines : v.Lines Settled height width) : Agrees height width (g.sweep width) g := by
  have hfactor : ∀ i < height, factor ((List.range width).map (g.entry i)) = Double.one := by
    intro i hi
    have hclosed : balance 1 = 1 ∧ 1 < limit := by decide +kernel
    have hbalance : balance (peak width (v.entry i)) = 1 := by
      rcases (hlines i hi).peak with hzero | hone
      · rw [hzero, balance_zero]
      · rw [hone, hclosed.1]
    rw [factor_line (h.entry i hi) (hbalance.trans_lt hclosed.2), hbalance]
    rfl
  refine ⟨fun i hi j hj => ?_, fun i hi => ?_, fun _ _ => rfl⟩
  · show (g.entry i j).mul _ = _
    rw [hfactor i hi]
    exact mul_by_one (h.entry i hi j hj) (hentry i hi j hj)
  · show (g.row i).mul _ = _
    rw [hfactor i hi]
    have hline := hlines i hi
    exact mul_by_one (h.row i hi) ⟨hline.rounded, by rw [abs_of_nonneg hline.nonneg]; exact hline.factor⟩

/-- **Later rounds** change nothing. -/
theorem Reads.rounds_eq (h : Reads height width g v) (heven : v.Even height width) (n : Nat) :
    rounds n (g.table height width) = g.table height width := by
  have hstep : (g.table height width).scaleRows.scaleColumns = g.table height width := by
    rw [scaleRows_table, (h.agrees_sweep heven.denoted heven.rows).table_eq, scaleColumns_table]
    exact (h.turn.agrees_sweep heven.denoted.turn heven.columns).turn.table_eq
  induction n with
  | zero => rfl
  | succ n ih => rw [rounds, hstep, ih]

/-- after a pass with finite factors, no row was faint -/
theorem Reads.noneFaint (h : Reads height width g v)
    (hfinite : ∀ i < height, ((g.sweep width).row i).isFinite = true) : v.NoneFaint height width := by
  intro i hi
  by_contra hfaint
  obtain ⟨hne, hle⟩ := not_or.1 hfaint
  have hpos : 0 < peak width (v.entry i) := (peak_nonneg _ _).lt_of_ne' hne
  have hrow := (isFinite_of_mul (hfinite i hi)).2
  rw [factor_faint (h.entry i hi) hpos (not_lt.1 hle)] at hrow
  cases hrow

/-- a finite product of factors has been one before each round -/
theorem isFinite_row_of_iterate (h : (((round height width)^[n] g).row i).isFinite = true) :
    (g.row i).isFinite = true := by
  induction n generalizing g with
  | zero => exact h
  | succ n ih => exact (isFinite_of_mul (ih h)).1

theorem isFinite_column_of_iterate (h : (((round height width)^[n] g).column j).isFinite = true) :
    (g.column j).isFinite = true := by
  induction n generalizing g with
  | zero => exact h
  | succ n ih => exact (isFinite_of_mul (ih h)).1

/-! ## Matrices -/

def ofMatrix (matrix : List (List Double)) : Grid Double :=
  ⟨fun i j => (matrix.getD i []).getD j Double.zero, fun _ => Double.one, fun _ => Double.one⟩

def values (g : Grid Double) : Grid Rat :=
  ⟨fun i j => (g.entry i j).value?.getD 0, fun i => (g.row i).value?.getD 0, fun j => (g.column j).value?.getD 0⟩

end Grid

open Grid

/-- rows of one length, with numbers that doubles can be -/
structure IsMatrix (matrix : List (List Double)) (columns : Nat) : Prop where
  width : ∀ row ∈ matrix, row.length = columns
  numbers : ∀ row ∈ matrix, ∀ a ∈ row, a.IsNumber

section Matrices

variable {matrix : List (List Double)} {columns : Nat}

theorem start_eq_table (h : IsMatrix matrix columns) :
    start matrix columns = (ofMatrix matrix).table matrix.length columns := by
  have hmatrix : matrix = (List.range matrix.length).map fun i =>
      (List.range columns).map ((ofMatrix matrix).entry i) := by
    apply List.ext_getElem (by simp)
    intro i hi _
    apply List.ext_getElem (by simpa using h.width _ (List.getElem_mem hi))
    intro j hj _
    simp [ofMatrix, hi, hj]
  simp only [start, table, Scaled.mk.injEq]
  refine ⟨hmatrix, ?_, ?_⟩ <;> simp [ofMatrix, List.map_const']

theorem IsMatrix.reads (h : IsMatrix matrix columns) :
    Reads matrix.length columns (ofMatrix matrix) (ofMatrix matrix).values ∧
      (ofMatrix matrix).values.AllDenoted matrix.length columns := by
  have hnumber : ∀ i < matrix.length, ∀ j < columns, ((ofMatrix matrix).entry i j).IsNumber := by
    intro i hi j hj
    have hrow := List.getElem_mem hi
    have hlength := h.width _ hrow
    have hentry : (ofMatrix matrix).entry i j = matrix[i][j] := by simp [ofMatrix, hi, hlength, hj]
    rw [hentry]
    exact h.numbers _ hrow _ (List.getElem_mem _)
  refine ⟨⟨fun i hi j hj => ?_, fun _ _ => rfl, fun _ _ => rfl⟩, fun i hi j hj => ?_⟩ <;>
    obtain ⟨q, hvalue, hq⟩ := (hnumber i hi j hj).denoted
  · simp only [values, hvalue, Option.getD_some]
  · simpa only [values, hvalue, Option.getD_some] using hq

theorem scaleMatrix_eq_table (h : IsMatrix matrix columns) (n : Nat) : scaleMatrix matrix columns n =
    ((round matrix.length columns)^[n] (ofMatrix matrix)).table matrix.length columns := by
  rw [scaleMatrix, start_eq_table h, rounds_table]

theorem IsMatrix.reads_sweep (h : IsMatrix matrix columns)
    (hnone : (ofMatrix matrix).values.NoneFaint matrix.length columns) :
    Reads matrix.length columns ((ofMatrix matrix).sweep columns) ((ofMatrix matrix).values.level columns) := by
  obtain ⟨hreads, hdenoted⟩ := h.reads
  have hfirst := lines_first hdenoted (fun _ _ => rfl) hnone
  exact hreads.sweep ⟨hdenoted, hnone, hfirst.imp Near.small⟩

/-! ## Invertible matrices -/

theorem forall_rows_iff {height width : Nat} {g : Grid Double} {v : Grid Rat} (h : Reads height width g v) :
    (∀ row ∈ (g.table height width).matrix, ¬Faint row) ↔ v.NoneFaint height width := by
  simp only [table, List.mem_map, List.mem_range, forall_exists_index, and_imp, forall_apply_eq_imp_iff₂]
  exact forall₂_congr fun i hi => (not_congr (faint_line (h.entry i hi))).trans not_not

theorem forall_columns_iff {height width : Nat} {g : Grid Double} {v : Grid Rat} (h : Reads height width g v) :
    (∀ j < width, ¬Faint (Scaled.column (g.table height width).matrix j)) ↔ v.turn.NoneFaint width height := by
  refine forall₂_congr fun j hj => ?_
  rw [column_table hj]
  exact (not_congr (faint_line (h.turn.entry j hj))).trans not_not

/-- no row is faint, and no column is once all rows are levelled -/
structure Invertible (matrix : List (List Double)) (columns : Nat) : Prop where
  rows : ∀ row ∈ matrix, ¬Faint row
  columns : ∀ j < columns, ¬Faint (column (start matrix columns).scaleRows.matrix j)

instance : Decidable (Invertible matrix columns) :=
  decidable_of_iff (_ ∧ _) ⟨fun h => ⟨h.1, h.2⟩, fun h => ⟨h.rows, h.columns⟩⟩

/-- what the two passes of the first round meet -/
theorem invertible_iff (h : IsMatrix matrix columns) : Invertible matrix columns ↔
    (ofMatrix matrix).values.NoneFaint matrix.length columns ∧
      ((ofMatrix matrix).values.level columns).turn.NoneFaint columns matrix.length := by
  have hstart := start_eq_table h
  have hrows : (∀ row ∈ matrix, ¬Faint row) ↔ (ofMatrix matrix).values.NoneFaint matrix.length columns := by
    rw [← forall_rows_iff h.reads.1, ← hstart]
    rfl
  have hcolumns : (ofMatrix matrix).values.NoneFaint matrix.length columns →
      ((∀ j < columns, ¬Faint (column (start matrix columns).scaleRows.matrix j)) ↔
        ((ofMatrix matrix).values.level columns).turn.NoneFaint columns matrix.length) := by
    intro hnone
    rw [hstart, scaleRows_table]
    exact forall_columns_iff (h.reads_sweep hnone)
  constructor
  · intro hinvertible
    have hnone := hrows.1 hinvertible.rows
    exact ⟨hnone, (hcolumns hnone).1 hinvertible.columns⟩
  · rintro ⟨hnone, hcross⟩
    exact ⟨hrows.2 hnone, (hcolumns hnone).2 hcross⟩

theorem Invertible.first_round (hinvertible : Invertible matrix columns) (h : IsMatrix matrix columns) : ∃ v,
    Reads matrix.length columns ((ofMatrix matrix).round matrix.length columns) v ∧
      v.Tempered matrix.length columns := by
  obtain ⟨hreads, hdenoted⟩ := h.reads
  obtain ⟨hrows, hcolumns⟩ := (invertible_iff h).1 hinvertible
  obtain ⟨hrowPass, hcolumnPass, htempered⟩ :=
    tempered_relevel hdenoted (fun _ _ => rfl) (fun _ _ => rfl) hrows hcolumns
  exact ⟨_, hreads.round hrowPass hcolumnPass, htempered⟩

theorem Invertible.second_round (hinvertible : Invertible matrix columns) (h : IsMatrix matrix columns) : ∃ v,
    Reads matrix.length columns ((round matrix.length columns)^[2] (ofMatrix matrix)) v ∧
      v.Even matrix.length columns := by
  obtain ⟨v, hreads, htempered⟩ := hinvertible.first_round h
  obtain ⟨hrowPass, hcolumnPass, heven⟩ := even_relevel htempered
  exact ⟨_, hreads.round hrowPass hcolumnPass, heven⟩

/-- after the second round nothing changes -/
theorem Invertible.scaleMatrix_eq (hinvertible : Invertible matrix columns) (h : IsMatrix matrix columns) (n : Nat) :
    scaleMatrix matrix columns (n + 2) = scaleMatrix matrix columns 2 := by
  obtain ⟨v, hreads, heven⟩ := hinvertible.second_round h
  calc scaleMatrix matrix columns (n + 2) = Scaled.rounds n (scaleMatrix matrix columns 2) := rfl
    _ = scaleMatrix matrix columns 2 := by rw [scaleMatrix_eq_table h, hreads.rounds_eq heven]

/-- **Settling.** After two rounds the largest magnitude of every line is zero or one, and no later round changes
anything. -/
theorem scaleMatrix_settles (h : IsMatrix matrix columns) (hinvertible : Invertible matrix columns) (n : Nat) :
    scaleMatrix matrix columns (n + 2) = scaleMatrix matrix columns 2 ∧
    (∀ row ∈ (scaleMatrix matrix columns 2).matrix, largest row = Double.zero ∨ largest row = Double.one) ∧
    ∀ j < columns, largest (column (scaleMatrix matrix columns 2).matrix j) = Double.zero ∨
      largest (column (scaleMatrix matrix columns 2).matrix j) = Double.one := by
  obtain ⟨v, hreads, heven⟩ := hinvertible.second_round h
  refine ⟨hinvertible.scaleMatrix_eq h n, ?_, fun j hj => ?_⟩
  · rw [scaleMatrix_eq_table h]
    intro row hrow
    obtain ⟨i, hi, rfl⟩ := List.mem_map.1 hrow
    have hi := List.mem_range.1 hi
    rw [largest_line (hreads.entry i hi)]
    exact (heven.rows i hi).peak.imp (congrArg finite) (congrArg finite)
  · rw [scaleMatrix_eq_table h, column_table hj, largest_line (hreads.turn.entry j hj)]
    exact (heven.columns j hj).peak.imp (congrArg finite) (congrArg finite)

theorem Invertible.isFinite (hinvertible : Invertible matrix columns) (h : IsMatrix matrix columns) :
    ∀ n, (scaleMatrix matrix columns n).IsFinite
  | 0 => by
    rw [scaleMatrix_eq_table h]
    exact h.reads.1.isFinite
  | 1 => by
    obtain ⟨v, hreads, -⟩ := hinvertible.first_round h
    rw [scaleMatrix_eq_table h]
    exact hreads.isFinite
  | n + 2 => by
    obtain ⟨v, hreads, -⟩ := hinvertible.second_round h
    rw [hinvertible.scaleMatrix_eq h, scaleMatrix_eq_table h]
    exact hreads.isFinite

/-- a matrix that is finite after some rounds was invertible -/
theorem invertible_of_isFinite (h : IsMatrix matrix columns) {n : Nat}
    (hfinite : (scaleMatrix matrix columns (n + 1)).IsFinite) : Invertible matrix columns := by
  rw [scaleMatrix_eq_table h, Function.iterate_succ_apply] at hfinite
  have hnone : (ofMatrix matrix).values.NoneFaint matrix.length columns := by
    apply h.reads.1.noneFaint
    intro i hi
    have hround : (((ofMatrix matrix).round matrix.length columns).row i).isFinite = true :=
      isFinite_row_of_iterate (hfinite.rowFactors _ (List.mem_map.2 ⟨i, List.mem_range.2 hi, rfl⟩))
    exact hround
  refine (invertible_iff h).2 ⟨hnone, (h.reads_sweep hnone).turn.noneFaint ?_⟩
  intro j hj
  have hround : (((ofMatrix matrix).round matrix.length columns).column j).isFinite = true :=
    isFinite_column_of_iterate (hfinite.columnFactors _ (List.mem_map.2 ⟨j, List.mem_range.2 hj, rfl⟩))
  exact hround

/-- **Finiteness.** -/
theorem isFinite_rounds_iff (h : IsMatrix matrix columns) (n : Nat) :
    (scaleMatrix matrix columns n).IsFinite ↔ n = 0 ∨ Invertible matrix columns := by
  constructor
  · intro hfinite
    cases n with
    | zero => exact .inl rfl
    | succ n => exact .inr (invertible_of_isFinite h hfinite)
  · rintro (rfl | hinvertible)
    · rw [scaleMatrix_eq_table h]
      exact h.reads.1.isFinite
    · exact hinvertible.isFinite h n

end Matrices

end Scaled

end Halfspace
