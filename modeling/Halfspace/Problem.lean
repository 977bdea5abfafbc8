/-
Problems for the engine.

A problem has columns, each with an optional low and an optional upper bound, and rows `Σ c·x = 0` over the columns.
Each row is given together with the column it is first solved for, which should occur in no other row. The task is
to find a value for every column so that all rows and all bounds hold. Columns are numbered from zero; a row may also
count one from the back, as every position in this library.
-/
import Halfspace.Arithmetic
import Halfspace.Keyed
import Halfspace.Position

namespace Halfspace

/-- the bounds of one column -/
structure Span (V : Type) where
  low : Option V := none
  upper : Option V := none
  deriving DecidableEq, Repr

/-- a column without bounds -/
def Span.free {V : Type} : Span V := {}

/-- a row: the coefficients of its columns -/
abbrev Row (K : Type) := Keyed K

structure Problem (K V : Type) where
  rows : List (Row K)
  /-- the column for which each row is first solved -/
  basis : List Int
  spans : List (Span V)

namespace Problem

variable {K V : Type}

def width (p : Problem K V) : Nat := p.spans.length

/-- the bounds of column `j` -/
def span (p : Problem K V) (j : Int) : Span V := (fetch? p.spans j).getD Span.free

/-- where a column rests without a better hint: on its low bound, else on its upper bound, else at zero -/
def restingValue (A : Arithmetic K V) (p : Problem K V) (j : Int) : V :=
  match (p.span j).low with
  | some l => l
  | none => (p.span j).upper.getD A.zero

/-- whether a value respects the bounds of column `j` -/
def within (A : Arithmetic K V) (p : Problem K V) (j : Int) (v : V) : Bool :=
  !((p.span j).low.any fun l => A.less v l) && !((p.span j).upper.any fun u => A.greater v u)

/-- the rows as a matrix of doubles -/
def dense (A : Arithmetic K V) (p : Problem K V) : Except Fault (List (List Double)) :=
  p.rows.mapM fun row =>
    (List.range p.width).mapM fun (j : Nat) =>
      match row.get? j with
      | some c => A.asDouble c
      | none => .ok Double.zero

end Problem

end Halfspace
