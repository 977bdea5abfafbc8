/-
Problem files.

A problem file has one statement per line, and a number sign starts a comment:

    var x, y
    x + y <= 4
    2*x - 3/2*y > 1
    x = 1/3

A declaration lists names, a constraint is a left side, one relation and a number. Names must be declared before they
are used; a name declared again stands for the new variable. Loading stops at the first line that is no statement,
with everything before it registered.
-/
import Halfspace.ProblemFile.LeftSide
import Halfspace.Solver.State

namespace Halfspace.ProblemFile

/-! ## Lines -/

/-- a text without its comment and the white space around it -/
def statementOf (line : String) : List Char := Text.trim (line.toList.takeWhile (· ≠ '#'))

/-- a text cut at its relations: the part before the first, and each relation with the part after it -/
abbrev Cut := List Char × List (Relation × List Char)

/-- a text that starts with a relation, given the cut of what follows the relation -/
def Cut.startWith (r : Relation) (cut : Cut) : Cut := ([], (r, cut.1) :: cut.2)

/-- a text that starts with a character of its first part -/
def Cut.cons (c : Char) (cut : Cut) : Cut := (c :: cut.1, cut.2)

/-- cut a text at its relations, the longer symbol first -/
def cutAtRelations : List Char → Cut
  | [] => ([], [])
  | '<' :: '=' :: rest => Cut.startWith .le (cutAtRelations rest)
  | '>' :: '=' :: rest => Cut.startWith .ge (cutAtRelations rest)
  | '<' :: rest => Cut.startWith .lt (cutAtRelations rest)
  | '>' :: rest => Cut.startWith .gt (cutAtRelations rest)
  | '=' :: rest => Cut.startWith .eq (cutAtRelations rest)
  | c :: rest => Cut.cons c (cutAtRelations rest)

/-- the names that a declaration lists; `none` when a text is no declaration -/
def declared? : List Char → Option (List String)
  | 'v' :: 'a' :: 'r' :: ' ' :: rest =>
    some ((Text.words (rest.map fun c => if c = ',' then ' ' else c)).map String.ofList)
  | _ => none

/-! ## Loading -/

/-- a fault in a line; a division by zero is passed on as it is -/
def locate (number : Nat) : Fault → Fault
  | .divisionByZero => .divisionByZero
  | cause => .atLine number cause

/-- register the constraint that a text writes -/
def loadConstraint (s : Solver) (cs : List Char) : Except Fault Solver :=
  match cutAtRelations cs with
  | (left, [(relation, right)]) => do
    let ids := fun name => (s.vars.index? name).map fun (x : Nat) => (x : Int)
    let terms ← LeftSide.read ids left s.settings.digitLimit
    let rhs ← Numeral.read (String.ofList (Text.trim right)) s.settings.digitLimit
    return s.register terms relation rhs
  | _ => .error (.relationCount (String.ofList cs))

/-- take over one line -/
def loadLine (s : Solver) (number : Nat) (line : String) : Except Fault Solver :=
  match statementOf line with
  | [] => .ok s
  | cs =>
    match declared? cs with
    | some names => .ok (names.foldl Solver.addVar s)
    | none => (loadConstraint s cs).mapError (locate number)

/-- a solver after the lines before a fault, and the fault if there is one -/
structure Loaded where
  solver : Solver
  fault : Option Fault := none

/-- take over lines, of which the first has the given number -/
def loadFrom (s : Solver) (number : Nat) : List String → Loaded
  | [] => { solver := s }
  | line :: rest =>
    match loadLine s number line with
    | .ok s' => loadFrom s' (number + 1) rest
    | .error fault => { solver := s, fault := some fault }

/-- a problem file in a new solver -/
def load (settings : Settings) (lines : List String) : Loaded := loadFrom (Solver.new settings) 1 lines

end Halfspace.ProblemFile
