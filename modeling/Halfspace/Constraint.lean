/-
Constraints, as they are given and as they are kept.

A constraint is `terms relation rhs`. It is kept as a statement about a shared left side: when `terms` is `scale`
times that side, the side stands in the same relation to `rhs / scale`, flipped if the scale is negative. Restated
constraints on one left side can then be compared by their right sides alone.
-/
import Halfspace.LinearForm
import Halfspace.Relation

namespace Halfspace

structure Constraint where
  id : Nat
  terms : LinearForm
  relation : Relation
  rhs : Rat
  deriving DecidableEq, Repr

namespace Constraint

/-- whether an assignment satisfies a constraint -/
def holds (c : Constraint) (v : Assignment) : Bool := c.relation.holds (c.terms.eval v) c.rhs

/-- a constraint without its strictness -/
def relaxed (c : Constraint) : Constraint := { c with relation := c.relation.relaxed }

/-- how far an assignment is from satisfying a constraint, strictness left aside -/
def violation (c : Constraint) (v : Assignment) : Rat :=
  let excess := c.terms.eval v - c.rhs
  match c.relation with
  | .le | .lt => if excess < 0 then 0 else excess
  | .ge | .gt => if 0 < excess then 0 else -excess
  | .eq => excess.abs

/-- a constraint as `name: terms relation rhs` without the name -/
def text (c : Constraint) (name : Int → Except Fault String) (limit : DigitLimit) : Except Fault String := do
  let left ← c.terms.text name limit
  limit.checkNumber c.rhs
  return left ++ " " ++ c.relation.symbol ++ " " ++ Text.fraction c.rhs

end Constraint

/-- a constraint as a statement about a left side; without one when all its coefficients cancel -/
structure Restated where
  constraint : Nat
  side : Option Nat
  scale : Rat
  relation : Relation
  rhs : Rat
  deriving DecidableEq, Repr

namespace Restated

def isDegenerate (r : Restated) : Bool := r.side.isNone

/-- whether a value of the left side satisfies a restated constraint -/
def holds (r : Restated) (value : Rat) : Bool := r.relation.holds value r.rhs

/-- how far a value of the left side is from satisfying a restated constraint, strictness left aside -/
def violation (r : Restated) (value : Rat) : Rat :=
  match r.relation with
  | .eq => (value - r.rhs).abs
  | .le | .lt => if value - r.rhs < 0 then 0 else value - r.rhs
  | .ge | .gt => if r.rhs - value < 0 then 0 else r.rhs - value

end Restated

namespace Constraint

/-- the statement about a left side of which the terms are `scale` times, a scale other than zero -/
def restate (c : Constraint) (side : Option Nat) (scale : Rat) : Restated where
  constraint := c.id
  side := side
  scale := scale
  relation := if 0 < scale then c.relation else c.relation.flip
  rhs := c.rhs / scale

/-- the same as `restate`, refusing the scale zero -/
def restate? (c : Constraint) (side : Option Nat) (scale : Rat) : Except Fault Restated :=
  if scale = 0 then .error .zeroScale else .ok (c.restate side scale)

/-- the statement of a constraint whose coefficients cancel: it is about the number zero -/
def degenerate (c : Constraint) : Restated where
  constraint := c.id
  side := none
  scale := 1
  relation := c.relation
  rhs := c.rhs

end Constraint

end Halfspace
