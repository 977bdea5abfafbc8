/-
What a caller does with one solver, call after call.

A call that fails leaves the solver as it was, except that solving keeps what it found out before it failed. The hint
of a first pass may come from anywhere, so that calls carry the pass that finds it. The exact pass can also be asked
for directly, from any resting and without a look at contradictions found during registration; `Reachable` allows
this too, and `runActions` does, while `runCalls` does not.
-/
import Halfspace.Solver.Answers

namespace Halfspace

inductive Call where
  | addVar (name : String)
  | addConstraint (terms : List (Numeral × VarRef)) (relation : String) (rhs : Numeral)
  | solve (pass : Solver.Pass)
  /-- the first pass alone -/
  | hint (pass : Solver.Pass)
  | tellModel
  /-- any question that is only read off the state -/
  | inspect

/-- a call, or an exact pass asked for directly -/
inductive Action where
  | call (c : Call)
  | exactPass (resting : Resting)

namespace Solver

/-- the solver after a call -/
def after (s : Solver) : Call → Solver
  | .addVar name => s.addVar name
  | .addConstraint terms relation rhs =>
    match s.addConstraint terms relation rhs with
    | .ok s' => s'
    | .error _ => s
  | .solve pass => (s.solveBy pass).solver
  | .hint pass =>
    match s.hintBy pass with
    | .ok (s', _) => s'
    | .error _ => s
  | .tellModel =>
    match s.tellModel with
    | .ok (s', _) => s'
    | .error _ => s
  | .inspect => s

/-- the solver after calls -/
def runCalls (s : Solver) (calls : List Call) : Solver := calls.foldl after s

/-- the solver after a call or an exact pass -/
def perform (s : Solver) : Action → Solver
  | .call c => s.after c
  | .exactPass resting => (s.solveOn resting).solver

/-- the solver after calls and exact passes -/
def runActions (s : Solver) (actions : List Action) : Solver := actions.foldl perform s

/-- the states of a solver with some settings: after any calls, and exact passes asked for directly -/
inductive Reachable (settings : Settings) : Solver → Prop where
  | new : Reachable settings (new settings)
  | call {s : Solver} (c : Call) (h : Reachable settings s) : Reachable settings (s.after c)
  | exactPass {s : Solver} (resting : Resting) (h : Reachable settings s) :
      Reachable settings (s.solveOn resting).solver

end Solver

end Halfspace
