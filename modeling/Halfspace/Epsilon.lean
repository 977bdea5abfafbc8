/-
A rational in the place of the infinitesimal.

A solution over `Delta` becomes one over the rationals when ε is small enough. A bound that a value respects stays
respected as long as the gap between them, evaluated at ε, does not turn negative; that limits ε only where the gap
has a positive base and a negative slope. `choose` starts from one, takes every limit into account and halves the
rest.
-/
import Halfspace.Problem

namespace Halfspace.Epsilon

/-- lower `d` until a gap is not negative at it -/
def restrict (d : Rat) (gap : Delta) : Rat :=
  if 0 < gap.base ∧ gap.slope < 0 then
    let limit := gap.base / -gap.slope
    if limit < d then limit else d
  else d

/-- the largest number up to `d` that keeps a value above a low bound -/
def restrictLow (d : Rat) (value low : Delta) : Rat := restrict d (value - low)

/-- the largest number up to `d` that keeps a value below an upper bound -/
def restrictUpper (d : Rat) (value upper : Delta) : Rat := restrict d (upper - value)

/-- lower `d` until a column keeps its bounds -/
def restrictColumn (d : Rat) (column : Delta × Span Delta) : Rat :=
  let d := column.2.low.elim d (restrictLow d column.1)
  column.2.upper.elim d (restrictUpper d column.1)

/-- a positive number at which every column keeps its bounds -/
def choose (columns : List (Delta × Span Delta)) : Rat := columns.foldl restrictColumn 1 / 2

end Halfspace.Epsilon
