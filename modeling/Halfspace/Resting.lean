/-
Where the columns outside the basis of a finished run rest.

A `Resting` says of some columns whether they are on their low bound, on their upper bound, or without bounds at
zero. It is read off one run and proposes a start for another, possibly in another arithmetic. It is a hint only: a
column that it leaves out, or whose place does not exist, starts on its low bound, else its upper bound, else zero.
-/
import Halfspace.Simplex

namespace Halfspace

inductive Place where
  | low
  | upper
  | zero
  deriving DecidableEq, Repr

namespace Place

def word : Place → String
  | low => "low"
  | upper => "upper"
  | zero => "zero"

def all : List Place := [low, upper, zero]

def read (word : String) : Except Fault Place :=
  match all.find? (·.word = word) with
  | some p => .ok p
  | none => .error (.badPlace word)

end Place

abbrev Resting := Keyed Place

namespace Resting

variable {K V : Type}

/-- the place of a value between the bounds of a column; none strictly inside -/
def placeOf? (A : Arithmetic K V) (s : Span V) (v : V) : Option Place :=
  if s.low.any (A.same v) then some .low
  else if s.upper.any (A.same v) then some .upper
  else if s.low.isNone && s.upper.isNone && A.vanishes v then some .zero
  else none

/-- the places of the columns outside the basis of a feasible run; of all columns when no basis is told -/
def ofRun (A : Arithmetic K V) (p : Problem K V) (r : Run K V) : Except Fault Resting :=
  match r.outcome, r.values with
  | .feasible, some values =>
    let basic := r.basis.getD []
    (List.range p.width).foldlM
      (fun resting (j : Nat) =>
        if basic.contains (j : Int) then .ok resting
        else
          match values[j]? with
          | none => .error .outOfRange
          | some v =>
            match placeOf? A (p.span j) v with
            | some place => .ok (Keyed.put resting j place)
            | none => .ok resting)
      Keyed.empty
  | _, _ => .ok Keyed.empty

/-- the value of column `j` at a place, if the column has such a place -/
def valueAt (A : Arithmetic K V) (p : Problem K V) (j : Int) : Place → Option V
  | .low => (p.span j).low
  | .upper => (p.span j).upper
  | .zero => if (p.span j).low.isNone && (p.span j).upper.isNone then some A.zero else none

/-- the value that a resting proposes for column `j` -/
def proposal (A : Arithmetic K V) (p : Problem K V) (resting : Resting) (j : Int) : V :=
  ((resting.get? j).bind (valueAt A p j)).getD (p.restingValue A j)

/-- the start that a resting proposes: a value for every column that is not in the first basis -/
def start (A : Arithmetic K V) (p : Problem K V) (resting : Resting) : Keyed V :=
  (List.range p.width).foldl
    (fun values (j : Nat) =>
      if p.basis.contains (j : Int) then values else values.put j (proposal A p resting j))
    Keyed.empty

end Resting

end Halfspace
