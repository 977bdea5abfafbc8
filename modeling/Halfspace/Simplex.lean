/-
The simplex engine: bounded columns, feasibility only, over any arithmetic.

A run keeps a tableau and a value for every column. Columns outside the basis stay within their bounds; the basic
columns follow from them. While some basic column violates a bound, the lowest such column is moved onto that bound
by exchanging it with the lowest column of its row that can move it the right way. The run ends

- feasible, when no basic column violates a bound,
- infeasible, when no column of the violated row can move: the row is then a refutation, written so that a column
  with a positive weight is held back by its upper bound and one with a negative weight by its low bound,
- at the limit on exchanges.

`step` is one exchange or the reason to stop, and `run` iterates it at most `limit` times.
-/
import Halfspace.Tableau

namespace Halfspace

/-- how a run ended; the engine here never reports the last two -/
inductive Outcome where
  | feasible
  | infeasible
  | iterationLimit
  | unbounded
  | unknown
  deriving DecidableEq, Repr

namespace Outcome

def word : Outcome → String
  | feasible => "feasible"
  | infeasible => "infeasible"
  | iterationLimit => "iteration_limit"
  | unbounded => "unbounded"
  | unknown => "unknown"

def all : List Outcome := [feasible, infeasible, iterationLimit, unbounded, unknown]

def read (word : String) : Except Fault Outcome :=
  match all.find? (·.word = word) with
  | some o => .ok o
  | none => .error (.badOutcome word)

end Outcome

/-- the result of a run -/
structure Run (K V : Type) where
  outcome : Outcome
  /-- the value of every column, where the engine tells -/
  values : Option (List V) := none
  /-- the basic columns in increasing order, where the engine tells -/
  basis : Option (List Int) := none
  /-- weights of columns that no values can satisfy -/
  conflict : Option (List (K × Int)) := none
  /-- one when the basic column in conflict was below its low bound, minus one when above its upper bound -/
  direction : Int := 0
  /-- the number of exchanges -/
  pivots : Int := 0

namespace Simplex

variable {K V : Type}

/-- the bound that a basic column violates -/
inductive Breach where
  | belowLow
  | aboveUpper
  deriving DecidableEq, Repr

structure State (K V : Type) where
  tableau : Tableau K
  values : List V

/-! ## The start -/

/-- the value of a basic column: its row, summed in order of insertion from zero -/
def rowValue (A : Arithmetic K V) (row : Row K) (values : List V) : Except Fault V :=
  row.entries.foldlM
    (fun total e => do
      return A.plus total (A.scale e.2 (← fetch values e.1)))
    A.zero

/-- the value at which a column outside the basis starts: the proposed one if it respects the bounds -/
def startValue (A : Arithmetic K V) (p : Problem K V) (start : Keyed V) (j : Int) : V :=
  match start.get? j with
  | some v => if p.within A j v then v else p.restingValue A j
  | none => p.restingValue A j

/-- set the value of a column that exists -/
def assign (values : List V) (j : Int) (v : V) : Except Fault (List V) :=
  match fromFront? values.length j with
  | some _ => .ok (replaceAt values j v)
  | none => .error .outOfRange

def initialValues (A : Arithmetic K V) (p : Problem K V) (t : Tableau K) (start : Keyed V) :
    Except Fault (List V) :=
  let outside := (List.range p.width).map fun (j : Nat) =>
    if t.contains j then A.zero else startValue A p start j
  t.entries.foldlM (fun values r => do assign values r.1 (← rowValue A r.2 values)) outside

def initial (A : Arithmetic K V) (p : Problem K V) (start : Keyed V) : Except Fault (State K V) := do
  let t ← Tableau.ofProblem A p
  return { tableau := t, values := ← initialValues A p t start }

/-! ## One step -/

def State.value (A : Arithmetic K V) (s : State K V) (j : Int) : V := (fetch? s.values j).getD A.zero

/-- the bound that column `b` violates, the low one first -/
def breach? (A : Arithmetic K V) (p : Problem K V) (s : State K V) (b : Int) : Option Breach :=
  if (p.span b).low.any fun l => A.less (s.value A b) l then some .belowLow
  else if (p.span b).upper.any fun u => A.greater (s.value A b) u then some .aboveUpper
  else none

/-- the number that stands for no column; a choice that falls on a column counted by it is no choice -/
def noColumn : Int := -1

/-- the lowest basic column that violates a bound -/
def leaving? (A : Arithmetic K V) (p : Problem K V) (s : State K V) : Option (Int × Breach) :=
  (s.tableau.sortedKeys.findSome? fun b => (breach? A p s b).map fun side => (b, side)).filter (·.1 != noColumn)

def canIncrease (A : Arithmetic K V) (p : Problem K V) (s : State K V) (j : Int) : Bool :=
  match (p.span j).upper with
  | none => true
  | some u => A.less (s.value A j) u

def canDecrease (A : Arithmetic K V) (p : Problem K V) (s : State K V) (j : Int) : Bool :=
  match (p.span j).low with
  | none => true
  | some l => A.greater (s.value A j) l

/-- whether moving column `j`, with coefficient `a` in the row of a violated column, can repair it -/
def canRepair (A : Arithmetic K V) (p : Problem K V) (s : State K V) (side : Breach) (a : K) (j : Int) : Bool :=
  let upwards := match side with
    | .belowLow => A.isPositive a
    | .aboveUpper => A.isNegative a
  !A.isZero a && ((upwards && canIncrease A p s j) || (!upwards && canDecrease A p s j))

/-- the lowest column of a row that can repair its basic column -/
def entering? (A : Arithmetic K V) (p : Problem K V) (s : State K V) (side : Breach) (row : Row K) :
    Option (Int × K) :=
  (row.byKey.find? fun e => canRepair A p s side e.2 e.1).filter (·.1 != noColumn)

/-- the bound onto which a violated column is moved -/
def target (A : Arithmetic K V) (p : Problem K V) (b : Int) : Breach → V
  | .belowLow => (p.span b).low.getD A.zero
  | .aboveUpper => (p.span b).upper.getD A.zero

/-- the row of the violated column `b` as weights of columns, `b` itself last -/
def conflictRow (A : Arithmetic K V) (row : Row K) (b : Int) (side : Breach) : List (K × Int) :=
  let kept := row.byKey.filter fun e => !A.isZero e.2
  match side with
  | .belowLow => kept.map (fun e => (e.2, e.1)) ++ [(A.neg A.one, b)]
  | .aboveUpper => kept.map (fun e => (A.neg e.2, e.1)) ++ [(A.one, b)]

/-- add to the value of column `j` -/
def shift (A : Arithmetic K V) (values : List V) (j : Int) (change : V) : List V :=
  replaceAt values j (A.plus ((fetch? values j).getD A.zero) change)

/-- move the basic columns along with column `j`, which moves by `theta`; only `b` stays -/
def drag (A : Arithmetic K V) (rows : List (Int × Row K)) (b j : Int) (theta : V) (values : List V) : List V :=
  rows.foldl
    (fun xs r =>
      match r.2.get? j with
      | some c => if r.1 = b then xs else shift A xs r.1 (A.scale c theta)
      | none => xs)
    values

/-- move `b` onto `goal` by moving column `j` of its row, and exchange the two; `b` is placed first, so a column
that occurs in its own row moves on from there -/
def exchange (A : Arithmetic K V) (s : State K V) (b j : Int) (a : K) (goal : V) :
    Except Fault (State K V) := do
  let theta ← A.quotientOf (A.minus goal (s.value A b)) a
  let values := drag A s.tableau.entries b j theta (shift A (replaceAt s.values b goal) j theta)
  return { tableau := ← s.tableau.pivot A b j, values }

/-- what happens next in a state -/
inductive Next (K V : Type) where
  | feasible
  | infeasible (conflict : List (K × Int)) (side : Breach)
  | continues (s : State K V)

def step (A : Arithmetic K V) (p : Problem K V) (s : State K V) : Except Fault (Next K V) :=
  match leaving? A p s with
  | none => .ok .feasible
  | some (b, side) =>
    let row := (s.tableau.get? b).getD Keyed.empty
    match entering? A p s side row with
    | none => .ok (.infeasible (conflictRow A row b side) side)
    | some (j, a) => (exchange A s b j a (target A p b side)).map .continues

/-! ## The run -/

def Breach.direction : Breach → Int
  | .belowLow => 1
  | .aboveUpper => -1

/-- a run that stops in a state -/
def State.stop (s : State K V) (outcome : Outcome) (pivots : Int) : Run K V where
  outcome := outcome
  values := some s.values
  basis := some s.tableau.sortedKeys
  pivots := pivots

/-- at most `remaining` more exchanges after `made` -/
def iterate (A : Arithmetic K V) (p : Problem K V) (limit : Int) :
    (remaining made : Nat) → State K V → Except Fault (Run K V)
  | 0, _, s => .ok (s.stop .iterationLimit limit)
  | remaining + 1, made, s => do
    match ← step A p s with
    | .feasible => return s.stop .feasible made
    | .infeasible conflict side =>
      return { s.stop .infeasible made with conflict := some conflict, direction := side.direction }
    | .continues s' => iterate A p limit remaining (made + 1) s'

/-- a run from the proposed values of the columns outside the basis, with a limit on exchanges -/
def run (A : Arithmetic K V) (p : Problem K V) (start : Keyed V) (limit : Int) : Except Fault (Run K V) := do
  iterate A p limit limit.toNat 0 (← initial A p start)

end Simplex

namespace Run

variable {K V : Type}

/-- the remark that comes with a result -/
def remark (r : Run K V) : String :=
  match r.outcome with
  | .iterationLimit => "Iteration limit " ++ toString r.pivots ++ " reached"
  | _ => ""

/-- the progress report of a run of the engine, with the name of its arithmetic -/
def report (name : String) (r : Run K V) : String :=
  "  [" ++ name ++ "] " ++
    match r.outcome with
    | .infeasible =>
      let column : Int := (r.conflict.bind (·.getLast?)).elim 0 (·.2)
      "infeasible row at column " ++ toString column ++ " after " ++ toString r.pivots ++ " pivots"
    | .iterationLimit => "iteration limit (" ++ toString r.pivots ++ ") reached"
    | _ => "feasible after " ++ toString r.pivots ++ " pivots"

end Run

end Halfspace
