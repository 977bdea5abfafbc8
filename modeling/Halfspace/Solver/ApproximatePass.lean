/-
The approximate pass: a cheap run that proposes where columns rest.

It runs over doubles or longer floats, with the simplex of this library or with an engine outside it, and its only
use is the `Resting` it ends in. Numbers that do not fit a double make it empty, with a warning. An engine outside
is any function of the settings and the problem; nothing is assumed about its answers.
-/
import Halfspace.Solver.State

namespace Halfspace

abbrev OutsideEngine := Settings → Problem Double Double → Except Fault (Run Double Double)

namespace OutsideEngine

/-- whether the upper bound of a column is below its low one -/
def crossed (s : Span Double) : Bool :=
  match s.low, s.upper with
  | some l, some u => u.lt l
  | _, _ => false

/-- an engine that answers as an outside one does: values without a basis, and only when feasible -/
def standIn : OutsideEngine := fun _ p =>
  if p.spans.any crossed then .ok { outcome := .infeasible }
  else do
    let r ← Simplex.run (Arithmetic.double Arithmetic.usualTolerance) p Keyed.empty 100000
    return { outcome := r.outcome, values := if r.outcome = .feasible then r.values else none, pivots := r.pivots }

/-- what an outside engine reports; it is not asked about a problem without columns -/
def report (p : Problem Double Double) (r : Run Double Double) : List String :=
  if p.width = 0 then []
  else
    match r.outcome with
    | .feasible => ["  [highs] status 0: Optimization terminated successfully. (HiGHS Status 7: Optimal)"]
    | .infeasible =>
      ["  [highs] status 2: The problem is infeasible. "
        ++ "(HiGHS Status 8: model_status is Infeasible; primal_status is None)"]
    | .iterationLimit => ["  [highs] status 1: Iteration limit reached."]
    | .unbounded => ["  [highs] status 3: The problem is unbounded."]
    | .unknown => ["  [highs] status 4: Numerical difficulties encountered."]

end OutsideEngine

/-- what an approximate pass leaves -/
structure Hint where
  resting : Resting := Keyed.empty
  pivots : Int := 0
  printed : List String := []
  warning : Option String := none

namespace Solver

variable {K V : Type}

/-- a pass in one arithmetic, with an engine and the reports that it prints itself -/
def passIn (s : Solver) (A : Arithmetic K V) (engine : Problem K V → Except Fault (Run K V))
    (report : Problem K V → Run K V → List String) : Except Fault Hint := do
  let p := (← s.assemble A).problem
  let r ← engine p
  let resting ← Resting.ofRun A p r
  let summary := "Approximate pass [" ++ s.settings.engine.word ++ "/" ++ A.name ++ "]: " ++ r.outcome.word
    ++ ", signature covers " ++ toString resting.size ++ "/" ++ toString p.width ++ " columns"
  return { resting, pivots := r.pivots, printed := if s.settings.verbose then report p r ++ [summary] else [] }

/-- a pass with the simplex of this library -/
def simplexPass (s : Solver) (A : Arithmetic K V) : Except Fault Hint :=
  s.passIn A (fun p => Simplex.run A p Keyed.empty s.settings.pivotLimit) fun _ r => [r.report A.name]

/-- a pass whose numbers were too large -/
def skippedPass (name : String) (cause : Fault) : Hint :=
  { warning := some ("Approximate pass skipped, values exceed " ++ name ++ " range: " ++ cause.message) }

/-- the pass that the settings ask for -/
def chosenPass (s : Solver) (engine : OutsideEngine) : Except Fault Hint :=
  let doubles := Arithmetic.double s.settings.tolerance
  match s.settings.engine, s.settings.precision with
  | .outside, _ => s.passIn doubles (engine s.settings) OutsideEngine.report
  | .simplex, none => s.simplexPass doubles
  | .simplex, some digits => s.simplexPass (Arithmetic.extended digits)

/-- the name of the arithmetic in which the pass runs -/
def passName (s : Solver) : String :=
  match s.settings.engine, s.settings.precision with
  | .simplex, some digits => (Arithmetic.extended digits).name
  | _, _ => (Arithmetic.double s.settings.tolerance).name

/-- where the approximate pass proposes that columns rest. The digits are counted before the pass begins, so that more
of them than a double can count are a fault and no reason to skip the pass -/
def approximate (s : Solver) (engine : OutsideEngine) : Except Fault Hint :=
  if !s.settings.hasDigits then .error .doubleOverflow
  else
    match s.chosenPass engine with
    | .error .doubleOverflow => .ok (skippedPass s.passName .doubleOverflow)
    | answer => answer

end Solver

end Halfspace
