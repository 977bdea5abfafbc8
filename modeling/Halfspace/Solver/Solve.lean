/-
Solving.

A contradiction found during registration is an answer by itself. Otherwise the approximate pass proposes a start
and the exact pass, over rationals with an infinitesimal, decides: a feasible run gives a model, an infeasible one a
refutation, and a run that reaches its limit neither. Evidence is checked against the constraints as they were given
before it is kept, unless the settings say otherwise. A completed answer is kept until the next constraint.
-/
import Halfspace.Solver.ApproximatePass

namespace Halfspace

/-- the state after an action, with what was printed and what was warned of; the fault if the action failed -/
structure Effect where
  solver : Solver
  printed : List String := []
  warnings : List String := []
  fault : Option Fault := none

/-- mark the answer as complete, unless the action failed -/
def Effect.completed (e : Effect) : Effect :=
  if e.fault.isNone then { e with solver := { e.solver with solved := true } } else e

namespace Solver

/-- keep evidence, once it is checked -/
def settle (s : Solver) (evidence : Evidence) : Effect :=
  if s.settings.verify && !Refutation.isCorrect s.constraints evidence then
    { solver := s, fault := some (s.settings.digitLimit.explain (evidence.map Prod.fst) (.rejectedEvidence evidence)) }
  else { solver := { s with evidence := some evidence, verdict := .unsatisfiable } }

/-! ## The exact pass -/

/-- the exact run from a proposed resting -/
def exactRun (s : Solver) (resting : Resting) : Except Fault Solution := do
  let assembly ← s.assemble Arithmetic.exact
  let start := resting.start Arithmetic.exact assembly.problem
  let run ← Simplex.run Arithmetic.exact assembly.problem start s.settings.pivotLimit
  return ⟨assembly, run⟩

/-- the evidence in an infeasible run: its columns stand for left sides -/
def runEvidence (s : Solver) (solution : Solution) : Except Fault Evidence := do
  let row ← (solution.run.conflict.getD []).mapM fun e => do
    let side ← fetch solution.assembly.sides e.2
    return (e.1, (side : Int))
  Refutation.ofRow s.intervals s.restated row s.settings.digitLimit

/-- take over the outcome of an exact run -/
def conclude (s : Solver) (solution : Solution) : Effect :=
  match solution.run.outcome with
  | .feasible => { solver := { s with verdict := .satisfiable } }
  | .infeasible =>
    match s.runEvidence solution with
    | .ok evidence => s.settle evidence
    | .error fault => { solver := s, fault := some fault }
  | _ => { solver := { s with verdict := .unknown } }

/-- the reports of an exact run -/
def exactReport (solution : Solution) : List String :=
  [ solution.run.report Arithmetic.exact.name,
    "Exact pass: " ++ solution.run.outcome.word ++ " after " ++ toString solution.run.pivots ++ " pivots ("
      ++ toString solution.assembly.problem.rows.length ++ " rows, "
      ++ toString solution.assembly.problem.width ++ " columns)" ]

/-- the exact pass from a proposed resting -/
def solveOn (s : Solver) (resting : Resting) : Effect :=
  match s.exactRun resting with
  | .error fault => { solver := s, fault := some fault }
  | .ok solution =>
    let after := { s with solution := some solution, pivots := s.pivots + solution.run.pivots }
    let effect := after.conclude solution
    { effect with printed := (if s.settings.verbose then exactReport solution else []) ++ effect.printed }

/-! ## Solving -/

/-- the evidence for a contradiction found during registration -/
def clashEvidence (s : Solver) : Clash → Except Fault Evidence
  | .side i => Refutation.ofConflict s.intervals s.restated i s.settings.digitLimit
  | .constraint id =>
    match s.constraints[id]? with
    | some c => .ok (Refutation.ofFalse c)
    | none => .error .outOfRange

/-- answer from a contradiction found during registration -/
def solveClash (s : Solver) (clash : Clash) : Effect :=
  let printed :=
    if s.settings.verbose then ["Contradiction found during registration, skipping engine"] else []
  match s.clashEvidence clash with
  | .error fault => { solver := s, printed, fault := some fault }
  | .ok evidence => { s.settle evidence with printed }

/-- a way to find a hint -/
abbrev Pass := Solver → Except Fault Hint

/-- both passes, the first in any way -/
def solvePasses (s : Solver) (pass : Pass) : Effect :=
  match pass s with
  | .error fault => { solver := s, fault := some fault }
  | .ok hint =>
    let effect := { s with pivots := s.pivots + hint.pivots }.solveOn hint.resting
    { effect with printed := hint.printed ++ effect.printed, warnings := hint.warning.toList }

/-- find the verdict, if it is not known already, from whatever hint the first pass gives -/
def solveBy (s : Solver) (pass : Pass) : Effect :=
  if s.solved then { solver := s }
  else
    match s.clash with
    | some clash => (s.solveClash clash).completed
    | none => (s.solvePasses pass).completed

/-- find the verdict, with the approximate pass that the settings ask for -/
def solve (s : Solver) (engine : OutsideEngine) : Effect := s.solveBy (·.approximate engine)

/-- the first pass alone; its exchanges are counted -/
def hintBy (s : Solver) (pass : Pass) : Except Fault (Solver × Hint) := do
  let hint ← pass s
  return ({ s with pivots := s.pivots + hint.pivots }, hint)

/-- the approximate pass alone -/
def approximateOnly (s : Solver) (engine : OutsideEngine) : Except Fault (Solver × Hint) :=
  s.hintBy (·.approximate engine)

end Solver

end Halfspace
