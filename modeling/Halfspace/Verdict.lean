/-
What is known about a set of constraints: nothing yet, that a model exists, or that none does.
-/

namespace Halfspace

inductive Verdict where
  | unknown
  | satisfiable
  | unsatisfiable
  deriving DecidableEq, Repr

/-- the word that answers show -/
def Verdict.word : Verdict → String
  | unknown => "unknown"
  | satisfiable => "satisfiable"
  | unsatisfiable => "unsatisfiable"

end Halfspace
