/-
From left sides and intervals to a problem.

There is a column for every left side in use: the sides of active variables, and every side with several terms. A
side `Σ a·x` with several terms also gives a row `Σ a·x - s = 0`, where `s` is its own column; the row is first
solved for `s`, which occurs in no other row. The interval of a side bounds its column.
-/
import Halfspace.FormStore
import Halfspace.Interval
import Halfspace.Problem
import Halfspace.Variables

namespace Halfspace

/-- a problem together with what its columns stand for -/
structure Assembly (K V : Type) where
  problem : Problem K V
  shapes : List Shape
  names : List String
  /-- the index of the left side behind each column -/
  sides : List Nat

namespace Assembly

variable {K V : Type}

/-- whether a left side gets a column -/
def isUsed (vars : Variables) (side : LinearForm) : Bool :=
  match side.soleVar? with
  | some x => vars.isActive x
  | none => true

/-- the left sides that get a column, in order -/
def usedSides (store : FormStore) (vars : Variables) : List Nat :=
  (List.range store.size).filter fun i => isUsed vars (store.sides.getD i [])

/-- the column of a left side -/
def columnOf? (sides : List Nat) (side : Nat) : Option Nat := sides.findIdx? (· = side)

/-- the column of a variable -/
def columnOfVar (store : FormStore) (sides : List Nat) (x : Int) : Except Fault Nat :=
  match (store.find? [⟨1, x⟩]).bind (columnOf? sides) with
  | some j => .ok j
  | none => .error .missingEntry

/-- the row of a left side with several terms, given its own column -/
def rowOf (A : Arithmetic K V) (store : FormStore) (sides : List Nat) (side : LinearForm) (own : Int) :
    Except Fault (Row K) := do
  let row ← side.foldlM
    (fun row t => do return Keyed.put row (← columnOfVar store sides t.var) (← A.coefficient t.coef)) Keyed.empty
  return row.put own (A.neg A.one)

/-- the bounds of a column from the interval of its side -/
def spanOf (A : Arithmetic K V) (i : Interval) : Except Fault (Span V) := do
  let low ← i.low.mapM fun l => A.lowBound l.value l.strict
  let upper ← i.upper.mapM fun u => A.upperBound u.value u.strict
  return ⟨low, upper⟩

/-- a variable's name, or a name made from the index of the side -/
def nameOf (vars : Variables) (store : FormStore) (i : Nat) : Except Fault String :=
  match (store.sides.getD i []).soleVar? with
  | some x => vars.name (.id x)
  | none => .ok ("_s_" ++ toString i)

/-- the columns whose sides have several terms, with these sides -/
def slacks (store : FormStore) (sides : List Nat) : List (Nat × LinearForm) :=
  (sides.zipIdx.map fun e => (e.2, store.sides.getD e.1 [])).filter fun e => !e.2.isTrivial

/-- the problem of all left sides in use -/
def ofSides (A : Arithmetic K V) (store : FormStore) (intervals : List Interval) (vars : Variables) :
    Except Fault (Assembly K V) := do
  let sides := usedSides store vars
  let own := slacks store sides
  let intervals := sides.map fun i => intervals.getD i Interval.whole
  let names ← sides.mapM (nameOf vars store)
  let rows ← own.mapM fun e => rowOf A store sides e.2 e.1
  let spans ← intervals.mapM (spanOf A)
  return {
    problem := { rows, basis := own.map fun e => (e.1 : Int), spans }
    shapes := intervals.map (·.shape)
    names
    sides }

end Assembly

end Halfspace
