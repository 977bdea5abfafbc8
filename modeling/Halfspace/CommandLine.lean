/-
The command line.

    FILE [--engine highs|simplex] [--precision DIGITS] [--max-iterations LIMIT] [--verbose]

decides the problem in a file and prints the verdict, then the values of a model, one name per line, or the
constraints of a refutation with their weights, up to a line with a number too long to be written. The exit code is zero
when the verdict is known and one when it is not. Options may be shortened as long as they are unambiguous, may carry
their value after an equals sign, and the last one of a kind counts. A command line that makes no sense ends with code
two.
-/
import Halfspace.ProblemFile.Load
import Halfspace.Solver.Answers

namespace Halfspace.CommandLine

/-! ## Options -/

inductive Flag where
  | engine
  | precision
  | maxIterations
  | verbose
  | help
  deriving DecidableEq, Repr

def Flag.text : Flag → String
  | engine => "--engine"
  | precision => "--precision"
  | maxIterations => "--max-iterations"
  | verbose => "--verbose"
  | help => "--help"

def Flag.all : List Flag := [engine, precision, maxIterations, verbose, help]

/-- what one word of a command line is -/
inductive Word where
  /-- a file name or the value of an option -/
  | value (s : String)
  /-- an option, with the value after its equals sign -/
  | flag (f : Flag) (attached : Option String)
  /-- the mark after which there are no options -/
  | endOfFlags
  /-- an option that does not exist, or not uniquely -/
  | unknown
  deriving DecidableEq, Repr

/-- the part before the first equals sign, and the part after it -/
def cutAtEquals (s : String) : String × Option String :=
  let cs := s.toList
  match cs.dropWhile (· ≠ '=') with
  | [] => (s, none)
  | _ :: rest => (String.ofList (cs.takeWhile (· ≠ '=')), some (String.ofList rest))

/-- the options that a word may be short for -/
def Flag.matching (word : String) : List Flag :=
  match Flag.all.filter (·.text = word) with
  | [] => Flag.all.filter fun f => word.toList.isPrefixOf f.text.toList
  | exact => exact

/-- whether a text is a minus sign with digits, which may have a decimal point before or among them -/
def isNegativeNumber : List Char → Bool
  | '-' :: rest =>
    let rest := if rest.getLast? = some '\n' then rest.dropLast else rest
    match rest.dropWhile Text.isDigit with
    | [] => !rest.isEmpty
    | '.' :: fraction => !fraction.isEmpty && fraction.all Text.isDigit
    | _ => false
  | _ => false

def Word.ofString (s : String) : Word :=
  match s.toList with
  | [] => .value s
  | ['-'] => .value s
  | ['-', '-'] => .endOfFlags
  | '-' :: '-' :: _ =>
    let (name, attached) := cutAtEquals s
    match Flag.matching name with
    | [f] => .flag f attached
    | [] => if s.toList.contains ' ' then .value s else .unknown
    | _ => .unknown
  | '-' :: 'h' :: rest => .flag .help (if rest.isEmpty then none else some (String.ofList rest))
  | '-' :: rest =>
    if isNegativeNumber ('-' :: rest) || rest.contains ' ' then .value s else .unknown
  | _ => .value s

/-- the options of a run -/
structure Options where
  file : Option String := none
  request : Request := {}
  deriving Inhabited

/-- an integer: an optional sign and digits within the limit, with white space around them but no information
separators -/
def readInt (s : String) (limit : DigitLimit) : Option Int :=
  let (negative, rest) := Numeral.sign (Text.trimPadding s.toList)
  match Text.groupedDigits rest with
  | ([], _) => none
  | (digits, []) =>
    if limit.admits digits.length then
      some (if negative then -(Text.numberOf digits : Int) else Text.numberOf digits)
    else none
  | _ => none

/-- set an option that takes a value -/
def Options.set (o : Options) (f : Flag) (value : String) : Option Options :=
  match f with
  | .engine =>
    match EngineChoice.read value with
    | .ok _ => some { o with request := { o.request with engine := value } }
    | .error _ => none
  | .precision =>
    (readInt value o.request.digitLimit).map fun n => { o with request := { o.request with precision := some n } }
  | .maxIterations =>
    (readInt value o.request.digitLimit).map fun n => { o with request := { o.request with pivotLimit := n } }
  | .verbose | .help => none

/-- the words of a command line up to its end; `none` when they make no sense. The mark that ends the options must
stand directly before or after the file name, and last or last but one; `beside` says that a file name came just
before -/
def readRest (beside : Bool) : Options → List String → Option Options
  | o, [] => if o.file.isSome then some o else none
  | o, s :: rest =>
    match Word.ofString s with
    | .value file => if o.file.isSome then none else readRest true { o with file := some file } rest
    | .flag .verbose none => readRest false { o with request := { o.request with verbose := true } } rest
    | .flag f (some value) => (o.set f value).bind fun o => readRest false o rest
    | .flag f none =>
      match rest with
      | [] => none
      | next :: rest =>
        match Word.ofString next with
        | .value value => (o.set f value).bind fun o => readRest false o rest
        | _ => none
    | .endOfFlags =>
      match rest, o.file with
      | [], some _ => if beside then some o else none
      | [file], none => some { o with file := some file }
      | _, _ => none
    | .unknown => none

/-- the options that a command line asks for; `none` when it makes no sense -/
def readWords (words : List String) (limit : DigitLimit := none) : Option Options :=
  readRest false { request := { digitLimit := limit } } words

/-! ## The run -/

/-- the lines of a text, which end at line feeds, carriage returns, or both in this order -/
def linesOf : List Char → List (List Char)
  | [] => [[]]
  | '\r' :: '\n' :: rest => [] :: linesOf rest
  | '\r' :: rest => [] :: linesOf rest
  | '\n' :: rest => [] :: linesOf rest
  | c :: rest =>
    match linesOf rest with
    | [] => [[c]]
    | line :: lines => (c :: line) :: lines

/-- what a run prints and its exit code, or the fault that stopped it -/
structure Result where
  printed : List String := []
  exit : Except Fault UInt32

/-- the lines that give the model -/
def modelLines (s : Solver) : Except Fault (List (Except Fault String)) := do
  return (s.vars.names.zip (← s.modelValues)).map fun e => do
    s.settings.digitLimit.checkNumber e.2
    return "  " ++ e.1 ++ " = " ++ Text.fraction e.2

/-- the lines that give the refutation -/
def evidenceLines (s : Solver) : Except Fault (List (Except Fault String)) := do
  return (← s.tellEvidence).map fun e => do
    s.settings.digitLimit.checkNumber e.1
    return "  " ++ Text.fraction e.1 ++ " * " ++ (← s.constraintText e.2)

/-- the lines that explain a verdict -/
def answerLines (s : Solver) : Except Fault (List (Except Fault String)) :=
  match s.verdict with
  | .satisfiable => modelLines s
  | .unsatisfiable => evidenceLines s
  | .unknown => .ok []

/-- lines up to the first with a fault, and that fault -/
def beforeFault : List (Except Fault String) → List String × Option Fault
  | [] => ([], none)
  | .error fault :: _ => ([], some fault)
  | .ok line :: rest =>
    let (lines, fault) := beforeFault rest
    (line :: lines, fault)

/-- decide a problem that is loaded -/
def decideLoaded (engine : OutsideEngine) (s : Solver) : Result :=
  let effect := s.solve engine
  match effect.fault with
  | some fault => { printed := effect.printed, exit := .error fault }
  | none =>
    let verdict := effect.solver.verdict
    let printed := effect.printed ++ [verdict.word]
    match (answerLines effect.solver).map beforeFault with
    | .error fault => { printed, exit := .error fault }
    | .ok (lines, some fault) => { printed := printed ++ lines, exit := .error fault }
    | .ok (lines, none) => { printed := printed ++ lines, exit := .ok (if verdict = .unknown then 1 else 0) }

/-- decide the problem that a text states -/
def decide (engine : OutsideEngine) (request : Request) (text : String) : Result :=
  match Settings.ofRequest request with
  | .error fault => { exit := .error fault }
  | .ok settings =>
    let loaded := ProblemFile.load settings ((linesOf text.toList).map String.ofList)
    match loaded.fault with
    | some fault => { exit := .error fault }
    | none => decideLoaded engine loaded.solver

end Halfspace.CommandLine
