/-
The state of a solver and the registration of variables and constraints.

Every variable has a left side of its own, and every constraint is restated about the left side that its terms are a
multiple of. The constraints on one side are folded into its interval as they arrive. The first contradiction that
shows already there, an empty interval or a false constraint without variables, is recorded, and no other after it. A
constraint that is refused changes nothing; one that is accepted discards all earlier answers.
-/
import Halfspace.Assembly
import Halfspace.Numeral
import Halfspace.Refutation
import Halfspace.Resting
import Halfspace.Settings

namespace Halfspace

/-- a contradiction found during registration -/
inductive Clash where
  /-- the interval of a left side is empty -/
  | side (index : Nat)
  /-- a constraint whose coefficients cancel is false -/
  | constraint (id : Nat)
  deriving DecidableEq, Repr

/-- the problem of the exact pass and how its run ended -/
structure Solution where
  assembly : Assembly Rat Delta
  run : Run Rat Delta

structure Solver where
  settings : Settings := {}
  vars : Variables := {}
  store : FormStore := {}
  /-- the interval of each left side -/
  intervals : List Interval := []
  /-- the left side of each variable -/
  varSides : List Nat := []
  constraints : List Constraint := []
  /-- each constraint about its left side -/
  restated : List Restated := []
  /-- the first side whose interval was found empty -/
  emptySide : Option Nat := none
  /-- the first false constraint whose coefficients cancel -/
  falseConstraint : Option Nat := none
  verdict : Verdict := .unknown
  /-- whether the verdict answers for all constraints, so that solving again is needless -/
  solved : Bool := false
  solution : Option Solution := none
  evidence : Option Evidence := none
  /-- the values of the variables, once asked for -/
  model : Option (List Rat) := none
  /-- exchanges of all passes so far -/
  pivots : Int := 0

namespace Solver

/-- a solver without variables and constraints -/
def new (settings : Settings) : Solver := { settings }

/-! ## Variables -/

/-- an interval for every left side of a store -/
def coverSides (store : FormStore) (intervals : List Interval) : List Interval :=
  intervals ++ List.replicate (store.size - intervals.length) Interval.whole

/-- register a variable; its id is the number of variables before -/
def addVar (s : Solver) (name : String) : Solver :=
  let placed := s.store.placeVar s.vars.count
  { s with
    vars := s.vars.add name
    store := placed.store
    intervals := coverSides placed.store s.intervals
    varSides := s.varSides ++ [placed.side.getD 0] }

/-! ## Constraints -/

/-- forget the answers of earlier passes -/
def forget (s : Solver) : Solver :=
  { s with
    verdict := .unknown
    solved := false
    solution := none
    evidence := none
    model := none }

/-- whether registration alone has found a contradiction -/
def clashed (s : Solver) : Bool := s.emptySide.isSome || s.falseConstraint.isSome

/-- the contradiction that registration has found; a false constraint is looked for first -/
def clash (s : Solver) : Option Clash :=
  match s.falseConstraint, s.emptySide with
  | some id, _ => some (.constraint id)
  | none, some side => some (.side side)
  | none, none => none

/-- keep a constraint whose coefficients cancel -/
def registerDegenerate (s : Solver) (c : Constraint) : Solver :=
  { s with
    constraints := s.constraints ++ [c]
    restated := s.restated ++ [c.degenerate]
    falseConstraint :=
      if !c.relation.holds 0 c.rhs && !s.clashed then some c.id else s.falseConstraint }

/-- keep a constraint about a left side -/
def registerOn (s : Solver) (c : Constraint) (store : FormStore) (side : Nat) (scale : Rat) : Solver :=
  let r := c.restate (some side) scale
  let intervals := coverSides store s.intervals
  let interval := (intervals.getD side Interval.whole).tighten r
  { s with
    vars := (store.sides.getD side []).foldl (fun v t => v.markActive t.var) s.vars
    store := store
    intervals := intervals.set side interval
    constraints := s.constraints ++ [c]
    restated := s.restated ++ [r]
    emptySide := if interval.isEmpty && !s.clashed then some side else s.emptySide }

/-- keep a constraint; its id is the number of constraints before -/
def register (s : Solver) (terms : LinearForm) (relation : Relation) (rhs : Rat) : Solver :=
  let c : Constraint := ⟨s.constraints.length, terms, relation, rhs⟩
  let placed := s.store.place terms
  match placed.side with
  | none => (s.registerDegenerate c).forget
  | some side => (s.registerOn c placed.store side placed.scale).forget

/-- a term as a caller gives it: the variable must exist, and the coefficient be a number -/
def readTerm (vars : Variables) (limit : DigitLimit) (t : Numeral × VarRef) : Except Fault Term :=
  match vars.position? t.2 with
  | none => .error (.unknownVariable t.2)
  | some x => do return ⟨← t.1.value limit, x⟩

/-- register a constraint as a caller gives it -/
def addConstraint (s : Solver) (terms : List (Numeral × VarRef)) (relation : String) (rhs : Numeral) :
    Except Fault Solver := do
  let relation ← Relation.read relation
  let terms ← terms.mapM (readTerm s.vars s.settings.digitLimit)
  return s.register terms relation (← rhs.value s.settings.digitLimit)

/-- the problem of the present constraints -/
def assemble {K V : Type} (s : Solver) (A : Arithmetic K V) : Except Fault (Assembly K V) :=
  Assembly.ofSides A s.store s.intervals s.vars

end Solver

end Halfspace
