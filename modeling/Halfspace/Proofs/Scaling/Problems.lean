/-
Scaling the problems of a solver.

A row of an assembled problem holds minus one for its own column, so that it is never faint, and all its entries are
numbers. What is left to go wrong is a column, whose only entries stand beside much larger ones in their rows.
- `scaled_isFinite_iff`: for all matrices, and for the problems of all solvers;
- `vanishing_is_infinite`: one constraint, with coefficients that doubles hold exactly.
-/
import Halfspace.Proofs.Answers
import Halfspace.Proofs.Scaling.Finiteness

namespace Halfspace

open Keyed

namespace Double

theorem isNumber_zero : Double.zero.IsNumber := ⟨0, by decide +kernel⟩

theorem isNumber_neg_one : (Double.neg Double.one).IsNumber := ⟨-1, by decide +kernel⟩

theorem isNumber_toDouble (q : Rat) : Ends IsNumber (fun _ => True) (Arithmetic.toDouble q) := by
  unfold Arithmetic.toDouble
  split
  · next b hb => exact ⟨q, hb⟩
  · exact trivial

end Double

namespace Solver

open Assembly Double

variable {s : Solver} {tolerance : Double} {a : Assembly Double Double}

/-- a row of numbers, with minus one for some column -/
structure Anchored (width : Nat) (row : Row Double) : Prop where
  numbers : ∀ j c, row.get? j = some c → c.IsNumber
  own : ∃ j : Nat, j < width ∧ row.get? j = some (Double.neg Double.one)

def entriesOf (width : Nat) (row : Row Double) : List Double :=
  (List.range width).map fun j : Nat => (row.get? j).getD Double.zero

theorem Anchored.isNumber {width : Nat} {row : Row Double} (h : Anchored width row) (j : Int) :
    ((row.get? j).getD Double.zero).IsNumber := by
  cases hget : row.get? j with
  | none => exact isNumber_zero
  | some c => exact h.numbers j c hget

/-- minus one is too large for the largest magnitude to be faint -/
theorem Anchored.not_faint {width : Nat} {row : Row Double} (h : Anchored width row) :
    ¬Scaled.Faint (entriesOf width row) := by
  obtain ⟨own, hown, hget⟩ := h.own
  have hvalues : ∀ j : Nat, j < width → ((row.get? j).getD Double.zero).value? =
      some (((row.get? j).getD Double.zero).value?.getD 0) := by
    intro j _
    obtain ⟨q, hq, -⟩ := (h.isNumber j).denoted
    rw [hq, Option.getD_some]
  rw [entriesOf, Scaled.faint_line hvalues, not_not]
  right
  have hunit : |((row.get? own).getD Double.zero).value?.getD 0| = 1 := by
    rw [hget]
    decide +kernel
  have hsmall : Scaled.faintest < 1 := by decide +kernel
  exact (hsmall.trans_eq hunit.symm).trans_le
    (Scaled.abs_le_peak (fun j : Nat => ((row.get? j).getD Double.zero).value?.getD 0) hown)

theorem anchored_rowOf (tolerance : Double) (store : FormStore) (sides : List Nat) (side : LinearForm) {own : Nat}
    (hown : own < sides.length) :
    Ends (Anchored sides.length) (fun _ => True) (rowOf (.double tolerance) store sides side own) := by
  unfold rowOf
  apply Ends.bind (P := fun row : Row Double => ∀ j c, row.get? j = some c → c.IsNumber)
  · apply Ends.foldlM
    · intro row hrow t _
      cases columnOfVar store sides t.var with
      | error fault => exact trivial
      | ok k =>
        apply Ends.bind (isNumber_toDouble t.coef)
        intro c hc j c' hc'
        rw [get?_put] at hc'
        split_ifs at hc'
        · exact Option.some.inj hc' ▸ hc
        · exact hrow j c' hc'
    · intro j c hc
      cases hc
  · intro row hrow
    refine ⟨fun j c hc => ?_, own, hown, by rw [get?_put, if_pos rfl]; rfl⟩
    rw [get?_put] at hc
    split_ifs at hc
    · exact Option.some.inj hc ▸ isNumber_neg_one
    · exact hrow j c hc

theorem anchored_of_assemble (h : s.assemble (.double tolerance) = .ok a) :
    ∀ row ∈ a.problem.rows, Anchored a.problem.width row := by
  unfold assemble ofSides at h
  obtain ⟨names, -, h⟩ := bind_eq_ok_iff.1 h
  obtain ⟨rows, hrows, h⟩ := bind_eq_ok_iff.1 h
  obtain ⟨spans, hspans, h⟩ := bind_eq_ok_iff.1 h
  cases h
  have hwidth : spans.length = (usedSides s.store s.vars).length := by
    rw [← (mapM_eq_ok_iff.1 hspans).length_eq, List.length_map]
  intro row hrow
  obtain ⟨e, he, hrowOf⟩ := exists_of_forall₂ (mapM_eq_ok_iff.1 hrows) hrow
  obtain ⟨i, hi, -⟩ := mem_slacks.1 he
  have hanchored := anchored_rowOf tolerance s.store (usedSides s.store s.vars) e.2 (List.getElem?_eq_some_iff.1 hi).1
  rw [hrowOf] at hanchored
  show Anchored spans.length row
  rw [hwidth]
  exact hanchored

theorem dense_double (p : Problem Double Double) :
    p.dense (.double tolerance) = .ok (p.rows.map (entriesOf p.width)) := by
  unfold Problem.dense
  apply mapM_ok
  intro row _
  apply mapM_ok
  intro j _
  cases row.get? j <;> rfl

/-- the matrix of an assembled problem has numbers only, and no faint row -/
theorem dense_of_assemble (h : s.assemble (.double tolerance) = .ok a) : ∃ matrix,
    a.problem.dense (.double tolerance) = .ok matrix ∧ Scaled.IsMatrix matrix a.problem.width ∧
      ∀ row ∈ matrix, ¬Scaled.Faint row := by
  have hanchored := anchored_of_assemble h
  refine ⟨_, dense_double a.problem, ⟨?_, ?_⟩, ?_⟩
  · simp [entriesOf]
  · intro entries hentries c hc
    obtain ⟨row, hrow, rfl⟩ := List.mem_map.1 hentries
    obtain ⟨j, -, rfl⟩ := List.mem_map.1 hc
    exact (hanchored row hrow).isNumber j
  · intro entries hentries
    obtain ⟨row, hrow, rfl⟩ := List.mem_map.1 hentries
    exact (hanchored row hrow).not_faint

/-- **Scaling.** A matrix of numbers stays finite in any number of rounds exactly if no row is faint, and no column once
all rows are levelled. In the problems of a solver no row ever is. -/
theorem scaled_isFinite_iff (rounds : Nat) :
    (∀ (matrix : List (List Double)) (columns : Nat), Scaled.IsMatrix matrix columns →
      ((scaleMatrix matrix columns rounds).IsFinite ↔ rounds = 0 ∨ Scaled.Invertible matrix columns)) ∧
    ∀ (s : Solver) (tolerance : Double) (a : Assembly Double Double), s.assemble (.double tolerance) = .ok a →
      ∃ matrix, a.problem.dense (.double tolerance) = .ok matrix ∧ Scaled.IsMatrix matrix a.problem.width ∧
        ((scaleMatrix matrix a.problem.width rounds).IsFinite ↔ rounds = 0 ∨ ∀ j < a.problem.width,
          ¬Scaled.Faint (Scaled.column (Scaled.start matrix a.problem.width).scaleRows.matrix j)) := by
  refine ⟨fun matrix columns h => Scaled.isFinite_rounds_iff h rounds, fun s tolerance a ha => ?_⟩
  obtain ⟨matrix, hdense, hmatrix, hrows⟩ := dense_of_assemble ha
  refine ⟨matrix, hdense, hmatrix, ?_⟩
  rw [Scaled.isFinite_rounds_iff hmatrix]
  exact or_congr_right ⟨fun hinvertible => hinvertible.columns, fun hcolumns => ⟨hrows, hcolumns⟩⟩

/-- `x + 200 * y ≥ 0` and `1/1000 * y - 3 * z ≤ 0` -/
def uneven : List Call :=
  [.addVar "x", .addVar "y", .addVar "z",
    .addConstraint [(.number 1, .id 0), (.number 200, .id 1)] ">=" (.number 0),
    .addConstraint [(.number (1 / 1000), .id 1), (.number (-3), .id 2)] "<=" (.number 0)]

theorem uneven_is_finite : ∃ a matrix,
    ((new {}).runCalls uneven).assemble (.double Arithmetic.usualTolerance) = .ok a ∧
    a.problem.dense (.double Arithmetic.usualTolerance) = .ok matrix ∧ Scaled.IsMatrix matrix a.problem.width ∧
    (scaleMatrix matrix a.problem.width Scaled.usualRounds).IsFinite ∧
    (scaleMatrix matrix a.problem.width 1000).IsFinite := by
  have hparts : (((new {}).runCalls uneven).assemble (.double Arithmetic.usualTolerance)).map (fun a =>
      (a.problem.dense (.double Arithmetic.usualTolerance)).map fun matrix =>
        decide (Scaled.Invertible matrix a.problem.width)) = .ok (.ok true) := by decide +kernel
  obtain ⟨a, ha, hinner⟩ := map_eq_ok_iff.1 hparts
  obtain ⟨matrix, hdense, hdecide⟩ := map_eq_ok_iff.1 hinner
  have hinvertible := of_decide_eq_true hdecide
  obtain ⟨matrix', hdense', hmatrix, hfinite⟩ := (scaled_isFinite_iff Scaled.usualRounds).2 _ _ a ha
  obtain rfl : matrix = matrix' := Except.ok.inj (hdense.symm.trans hdense')
  exact ⟨a, matrix, ha, hdense, hmatrix, hfinite.2 (.inr hinvertible.columns),
    ((scaled_isFinite_iff 1000).1 _ _ hmatrix).2 (.inr hinvertible)⟩

/-- `x + 2 ^ 700 * y + 2 ^ -330 * z ≥ 0` -/
def vanishing : List Call :=
  [.addVar "x", .addVar "y", .addVar "z",
    .addConstraint [(.number 1, .id 0), (.number (mkRat (Nat.pow 2 700) 1), .id 1),
      (.number (mkRat 1 (Nat.pow 2 330)), .id 2)] ">=" (.number 0)]

/-- beside the second coefficient the third becomes so small that the factor of its column is infinite -/
theorem vanishing_is_infinite : ∃ a matrix,
    ((new {}).runCalls vanishing).assemble (.double Arithmetic.usualTolerance) = .ok a ∧
    a.problem.dense (.double Arithmetic.usualTolerance) = .ok matrix ∧ Scaled.IsMatrix matrix a.problem.width ∧
    ¬(scaleMatrix matrix a.problem.width Scaled.usualRounds).IsFinite := by
  have hparts : (((new {}).runCalls vanishing).assemble (.double Arithmetic.usualTolerance)).map (fun a =>
      (a.problem.dense (.double Arithmetic.usualTolerance)).map fun matrix =>
        decide (scaleMatrix matrix a.problem.width Scaled.usualRounds).IsFinite) = .ok (.ok false) := by decide +kernel
  obtain ⟨a, ha, hinner⟩ := map_eq_ok_iff.1 hparts
  obtain ⟨matrix, hdense, hdecide⟩ := map_eq_ok_iff.1 hinner
  obtain ⟨matrix', hdense', hmatrix, -⟩ := dense_of_assemble ha
  obtain rfl : matrix = matrix' := Except.ok.inj (hdense.symm.trans hdense')
  exact ⟨a, matrix, ha, hdense, hmatrix, of_decide_eq_false hdecide⟩

end Solver

end Halfspace
