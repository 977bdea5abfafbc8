/-
Tableaux.

A tableau solves every row of a problem for one basic column: the row of basic column `b` reads `x_b = Σ c_j·x_j`
over columns that are not basic. `ofProblem` solves each row for its given column, and `pivot b j` solves the row of
`b` for `j` instead and replaces `j` in all other rows. A coefficient that the arithmetic takes for zero is dropped
from a row when it arises there.
-/
import Halfspace.Problem

namespace Halfspace

/-- the rows by basic column -/
abbrev Tableau (K : Type) := Keyed (Row K)

namespace Tableau

variable {K V : Type}

/-- a row of a problem, solved for column `b` -/
def solveRow (A : Arithmetic K V) (row : Row K) (b : Int) : Except Fault (Row K) :=
  match row.get? b with
  | none => .error .missingEntry
  | some p =>
    let others := row.remove b
    if A.isNull p && !others.entries.isEmpty then .error .divisionByZero
    else .ok (others.mapValues fun c => A.div (A.neg c) p)

/-- every row solved for its given column; rows and given columns are paired in order -/
def ofProblem (A : Arithmetic K V) (p : Problem K V) : Except Fault (Tableau K) :=
  (p.rows.zip p.basis).foldlM (fun t r => do return t.put r.2 (← solveRow A r.1 r.2)) Keyed.empty

/-- the row `x_b = a·x_j + Σ c_k·x_k` solved for `x_j`: `x_j = x_b/a - Σ (c_k/a)·x_k` -/
def turnRow (A : Arithmetic K V) (b : Int) (a : K) (rest : Row K) : Row K :=
  rest.entries.foldl (fun row e => row.put e.1 (A.div (A.neg e.2) a)) (Keyed.empty.put b (A.div A.one a))

/-- add `c` times an entry to a row -/
def addEntry (A : Arithmetic K V) (c : K) (row : Row K) (e : Int × K) : Row K :=
  let sum := A.add ((row.get? e.1).getD A.null) (A.mul c e.2)
  if A.isZero sum then row.remove e.1 else row.put e.1 sum

/-- replace column `j` in a row by the right side that equals it -/
def substitute (A : Arithmetic K V) (j : Int) (meaning row : Row K) : Row K :=
  match row.get? j with
  | none => row
  | some c => meaning.entries.foldl (addEntry A c) (row.remove j)

/-- exchange the basic column `b` with the column `j` of its row -/
def pivot (A : Arithmetic K V) (t : Tableau K) (b j : Int) : Except Fault (Tableau K) :=
  match t.get? b with
  | none => .error .missingEntry
  | some row =>
    match row.get? j with
    | none => .error .missingEntry
    | some a =>
      if A.isNull a then .error .divisionByZero
      else
        let turned := turnRow A b a (row.remove j)
        .ok (((t.remove b).mapValues (substitute A j turned)).put j turned)

end Tableau

end Halfspace
