/-
What can be asked of a solver.

After a satisfiable verdict: a positive number in the place of the infinitesimal and the values of all variables;
variables without a column in the solved problem are zero. After an unsatisfiable one: the evidence. At any time: the
constraints, their restated forms, the intervals, and how far given values are from satisfying them. Positions of
constraints and left sides may be counted from the back.
-/
import Halfspace.Epsilon
import Halfspace.Solver.Solve

namespace Halfspace.Solver

/-! ## Models and evidence -/

/-- the solution behind a satisfiable verdict -/
def satisfying? (s : Solver) : Option Solution := if s.verdict = .satisfiable then s.solution else none

/-- the values of all columns with their bounds -/
def columns (solution : Solution) : List (Delta × Span Delta) :=
  (solution.run.values.getD []).zip solution.assembly.problem.spans

/-- the number that takes the place of the infinitesimal -/
def delta (s : Solver) : Except Fault Rat :=
  match s.satisfying? with
  | some solution => .ok (Epsilon.choose (columns solution))
  | none => .error (.noDelta s.verdict)

/-- the value of a left side in a solution -/
def sideValue (solution : Solution) (d : Rat) (side : Nat) : Rat :=
  match Assembly.columnOf? solution.assembly.sides side with
  | some j => (((solution.run.values.getD [])[j]?).map (·.valueAt d)).getD 0
  | none => 0

/-- the values of the variables in a solution -/
def valuesIn (s : Solver) (solution : Solution) : List Rat :=
  s.varSides.map (sideValue solution (Epsilon.choose (columns solution)))

/-- the values of the variables: those already told, else those of the solution -/
def modelValues (s : Solver) : Except Fault (List Rat) :=
  match s.satisfying? with
  | some solution => .ok (s.model.getD (s.valuesIn solution))
  | none => .error (.noModel s.verdict)

/-- tell the values of the variables and remember them -/
def tellModel (s : Solver) : Except Fault (Solver × List Rat) := do
  let values ← s.modelValues
  return ({ s with model := some values }, values)

/-- the values of a model as an assignment, zero for other variables -/
def assignmentOf (values : List Rat) : Assignment := fun x =>
  if x < 0 then 0 else values.getD x.toNat 0

/-- weights of constraints that contradict one another -/
def tellEvidence (s : Solver) : Except Fault Evidence :=
  if s.verdict = .unsatisfiable then .ok (s.evidence.getD []) else .error (.noEvidence s.verdict)

/-- whether there is evidence and it is correct -/
def evidenceIsCorrect (s : Solver) : Bool :=
  s.verdict = .unsatisfiable && Refutation.isCorrect s.constraints (s.evidence.getD [])

/-- constraints are never taken back -/
def retract (_ : Solver) : Except Fault Solver := .error .noRetraction

/-! ## Counts -/

def constraintCount (s : Solver) : Nat := s.constraints.length

/-- the number of left sides with several terms -/
def multiTermCount (s : Solver) : Nat := s.store.sides.countP (!·.isTrivial)

/-- the number of columns of the problem last solved exactly -/
def columnCount (s : Solver) : Nat := (s.solution.map (·.assembly.problem.width)).getD 0

/-! ## Parts -/

def constraint (s : Solver) (i : Int) : Except Fault Constraint := fetch s.constraints i

def restatement (s : Solver) (i : Int) : Except Fault Restated := fetch s.restated i

def interval (s : Solver) (side : Int) : Except Fault Interval := fetch s.intervals side

/-- the interval of a variable -/
def intervalOf (s : Solver) : VarRef → Except Fault Interval
  | .id x => do fetch s.intervals (← fetch s.varSides x)
  | .word _ => .error .mixedOperands

def varIsActive (s : Solver) (x : VarRef) : Bool := s.vars.isMarked x

/-! ## Values -/

/-- the value of the left side of a constraint -/
def leftValue (s : Solver) (i : Int) (v : Assignment) : Except Fault Rat := do
  return (← s.constraint i).terms.eval v

def constraintHolds (s : Solver) (i : Int) (v : Assignment) : Except Fault Bool := do
  return (← s.constraint i).holds v

def allHold (s : Solver) (v : Assignment) : Bool := s.constraints.all (·.holds v)

/-- the values of names that are variables; other names are passed over unread -/
def knownValues (vars : Variables) (limit : DigitLimit) : List (String × Numeral) → Except Fault (List (Int × Rat))
  | [] => .ok []
  | e :: rest =>
    match vars.index? e.1 with
    | none => knownValues vars limit rest
    | some x => do return ((x : Int), ← e.2.value limit) :: (← knownValues vars limit rest)

/-- values by name as an assignment -/
def valuesByName (s : Solver) (solution : List (String × Numeral)) : Except Fault Assignment :=
  (knownValues s.vars s.settings.digitLimit solution).map Assignment.ofList

/-- the value of a left side -/
def formValue (s : Solver) (side : Int) (solution : List (String × Numeral)) : Except Fault Rat := do
  let form ← fetch s.store.sides side
  return form.eval (← s.valuesByName solution)

/-- how far values are from satisfying a restated constraint; one without a left side is about zero -/
def violationOf (s : Solver) (r : Restated) (solution : List (String × Numeral)) : Except Fault Rat := do
  match r.side with
  | none => return r.violation 0
  | some side => return r.violation (← s.formValue side solution)

def violation (s : Solver) (i : Int) (solution : List (String × Numeral)) : Except Fault Rat := do
  s.violationOf (← s.restatement i) solution

/-- the violations of all constraints, summed -/
def totalViolation (s : Solver) (solution : List (String × Numeral)) : Except Fault Rat :=
  s.restated.foldlM (fun sum r => do return sum + (← s.violationOf r solution)) 0

/-! ## Text -/

def nameOf (s : Solver) (x : Int) : Except Fault String := s.vars.name (.id x)

/-- the left side of a constraint -/
def leftText (s : Solver) (i : Int) : Except Fault String := do
  (← s.constraint i).terms.text s.nameOf s.settings.digitLimit

/-- a constraint on one line, under the position by which it was asked for -/
def constraintText (s : Solver) (i : Int) : Except Fault String := do
  return "c" ++ toString i ++ ": " ++ (← (← s.constraint i).text s.nameOf s.settings.digitLimit)

/-- a left side with its interval -/
def sideText (s : Solver) (side : Int) : Except Fault String := do
  let form ← fetch s.store.sides side
  let left ← form.text s.nameOf s.settings.digitLimit
  let interval ← s.interval side
  (interval.low.toList ++ interval.upper.toList).forM (s.settings.digitLimit.checkNumber ·.value)
  return left ++ " in " ++ interval.text

end Halfspace.Solver
