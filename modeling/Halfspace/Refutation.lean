/-
Refutations: proofs that constraints contradict one another.

A refutation gives weights to constraints, a negative weight standing for the flipped relation. It proves that no
assignment satisfies them all when

- every weight differs from zero and all weighted relations point the same way, equalities fitting either,
- the weighted left sides sum to the zero form,
- the weighted right sides sum to a number to which zero does not stand in the common relation, which is strict as
  soon as one of the relations is.

`isRefutation` checks this on the constraints as they were given, without regard to how the weights were found.
The second half finds weights: `ofRow` turns a combination of left sides, each held by one of its bounds, into
weights of the constraints that supplied these bounds.
-/
import Halfspace.Interval
import Halfspace.Position

namespace Halfspace

/-- weights of constraints, by id -/
abbrev Evidence := List (Rat × Nat)

/-- a constraint with a weight -/
structure Weighted where
  weight : Rat
  constraint : Constraint
  deriving DecidableEq, Repr

namespace Refutation

/-! ## The check -/

/-- the relation of a weighted constraint -/
def oriented (w : Weighted) : Relation :=
  if w.weight < 0 then w.constraint.relation.flip else w.constraint.relation

/-- the relation of the weighted sum, if all directions agree and no weight is zero -/
def aggregate (ws : List Weighted) : Option Relation :=
  let strict := ws.any fun w => (oriented w).isStrict
  let upper := ws.any fun w => (oriented w).isUpper
  let low := ws.any fun w => (oriented w).isLow
  if ws.any fun w => w.weight = 0 then none
  else
    match upper, low with
    | true, true => none
    | true, false => some (if strict then .lt else .le)
    | false, true => some (if strict then .gt else .ge)
    | false, false => some .eq

/-- the weighted left sides, one after another -/
def leftSum (ws : List Weighted) : LinearForm := ws.flatMap fun w => w.constraint.terms.scale w.weight

def leftCancels (ws : List Weighted) : Bool := (leftSum ws).collect.isEmpty

/-- the weighted sum of the right sides -/
def rightSum : List Weighted → Rat
  | [] => 0
  | w :: rest => w.weight * w.constraint.rhs + rightSum rest

/-- whether the sum contradicts a relation of zero to it -/
def contradicts (r : Relation) (ws : List Weighted) : Bool := !r.holds 0 (rightSum ws)

/-- whether weighted constraints refute one another -/
def isRefutation (ws : List Weighted) : Bool :=
  !ws.isEmpty &&
    match aggregate ws with
    | none => false
    | some r => leftCancels ws && contradicts r ws

/-- the constraints that evidence names -/
def weighted? (constraints : List Constraint) (evidence : Evidence) : Option (List Weighted) :=
  evidence.mapM fun e => (constraints[e.2]?).map (⟨e.1, ·⟩)

/-- whether evidence refutes the constraints it names -/
def isCorrect (constraints : List Constraint) (evidence : Evidence) : Bool :=
  ((weighted? constraints evidence).map isRefutation).getD false

/-! ## Finding weights -/

/-- the weight that one left side with a weight gives to the constraint behind the bound that holds it -/
def witnessed (limit : DigitLimit) (intervals : List Interval) (restated : List Restated) (e : Rat × Int) :
    Except Fault (Option Term) := do
  if e.1 = 0 then return none
  let interval ← fetch intervals e.2
  let bound := if 0 < e.1 then interval.upper else interval.low
  match bound with
  | none => .error (limit.explain [e.1] (.missingBound e.2 e.1))
  | some l =>
    match restated[l.witness]? with
    | none => .error .outOfRange
    | some r => return some ⟨e.1 / r.scale, l.witness⟩

/-- evidence from weights of left sides: positive weights use upper bounds and negative ones low bounds. Weights of
one constraint are summed as coefficients of one variable are, which also sorts them -/
def ofRow (intervals : List Interval) (restated : List Restated) (row : List (Rat × Int))
    (limit : DigitLimit := none) : Except Fault Evidence := do
  let terms ← row.mapM (witnessed limit intervals restated)
  return (LinearForm.collect (terms.filterMap id)).map fun t => (t.coef, t.var.toNat)

/-- evidence from a left side whose low bound exceeds its upper one -/
def ofConflict (intervals : List Interval) (restated : List Restated) (side : Int) (limit : DigitLimit := none) :
    Except Fault Evidence :=
  ofRow intervals restated [(1, side), (-1, side)] limit

/-- evidence from a false constraint whose coefficients cancel -/
def ofFalse (c : Constraint) : Evidence :=
  match c.relation with
  | .eq => [(if 0 < c.rhs then -1 else 1, c.id)]
  | .le | .lt => [(1, c.id)]
  | .ge | .gt => [(-1, c.id)]

end Refutation

end Halfspace
