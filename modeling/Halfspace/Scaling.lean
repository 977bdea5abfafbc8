/-
Scaling of a matrix of doubles.

A round multiplies every row by the reciprocal of its largest magnitude, and then every column of the result
likewise, so that the largest magnitudes approach one. A row or column whose largest magnitude is not positive,
which includes an undefined one, is left alone. The factors of all rounds are multiplied up. For a homogeneous
system, row factors do not change the solutions and column factors stretch them.
-/
import Halfspace.Double

namespace Halfspace

structure Scaled where
  matrix : List (List Double)
  rowFactors : List Double
  columnFactors : List Double
  deriving DecidableEq, Repr

namespace Scaled

/-- the largest magnitude, undefined as soon as one entry is, zero without entries -/
def largest (xs : List Double) : Double := xs.foldl (fun m x => m.max x.abs) Double.zero

/-- the factor for one row or column -/
def factor (xs : List Double) : Double :=
  if Double.zero.lt (largest xs) then Double.one.div (largest xs) else Double.one

/-- the entries of column `j` -/
def column (matrix : List (List Double)) (j : Nat) : List Double := matrix.map (·.getD j Double.zero)

def scaleRows (s : Scaled) : Scaled :=
  { s with
    matrix := s.matrix.map fun row => row.map (·.mul (factor row))
    rowFactors := s.rowFactors.zipWith Double.mul (s.matrix.map factor) }

def scaleColumns (s : Scaled) : Scaled :=
  let factors := (List.range s.columnFactors.length).map fun j => factor (column s.matrix j)
  { s with
    matrix := s.matrix.map fun row => row.zipWith Double.mul factors
    columnFactors := s.columnFactors.zipWith Double.mul factors }

/-- a matrix before any scaling -/
def start (matrix : List (List Double)) (columns : Nat) : Scaled :=
  ⟨matrix, matrix.map fun _ => Double.one, List.replicate columns Double.one⟩

/-- some rounds of scaling -/
def rounds : Nat → Scaled → Scaled
  | 0, s => s
  | n + 1, s => rounds n s.scaleRows.scaleColumns

/-- the number of rounds unless another is asked for -/
def usualRounds : Nat := 3

end Scaled

/-- scale a matrix with some number of columns -/
def scaleMatrix (matrix : List (List Double)) (columns rounds : Nat) : Scaled :=
  Scaled.rounds rounds (Scaled.start matrix columns)

end Halfspace
