/-
Everything that can go wrong, as causes.

A request that cannot be answered yields a `Fault`. The constructors say why and carry what the explanation needs;
`Fault.message` is the one place where the wording is decided. Faults of arithmetic and of indexing
(`divisionByZero`, `doubleOverflow`, `outOfRange`, `missingEntry`, `mixedOperands`) explain themselves.
-/
import Halfspace.Text.Fraction
import Halfspace.Text.Quoted
import Halfspace.Verdict

namespace Halfspace

/-- how a caller names a variable: by its id, or by a word, which never is one -/
inductive VarRef where
  | id (n : Int)
  | word (s : String)
  deriving DecidableEq, Repr

def VarRef.text : VarRef → String
  | id n => toString n
  | word s => s

inductive Fault where
  /-- a text that writes no number -/
  | badNumber (text : String)
  /-- letters in the place of decimals -/
  | badDecimals (letters : String)
  /-- a run of digits over the limit on text -/
  | tooLongToRead (most digits : Nat)
  /-- a number whose text would be over the limit -/
  | tooLongToWrite (most : Nat)
  | divisionByZero
  /-- a number beyond the largest double -/
  | doubleOverflow
  | outOfRange
  /-- a row without the column it is asked for -/
  | missingEntry
  /-- operands between which the operation is not defined -/
  | mixedOperands
  | fewDigits (digits : Int)
  | badRelation (word : String)
  | badPlace (word : String)
  | badOutcome (word : String)
  | zeroScale
  | unknownVariable (ref : VarRef)
  | noRetraction
  | noModel (verdict : Verdict)
  | noEvidence (verdict : Verdict)
  | noDelta (verdict : Verdict)
  /-- evidence that failed its own check -/
  | rejectedEvidence (evidence : List (Rat × Nat))
  /-- a form used in a refutation from a side on which it has no bound -/
  | missingBound (side : Int) (weight : Rat)
  | unreadableTerm (rest : String)
  | missingOperator (name : String)
  | undeclared (name : String)
  | emptyLeftSide
  | relationCount (line : String)
  /-- a fault in one line of a problem file, lines counted from one -/
  | atLine (number : Nat) (cause : Fault)
  | unknownEngine (word : String)
  | precisionWithoutSimplex
  | lowPrecision (digits : Int)
  | badPivotLimit (limit : Int)
  deriving DecidableEq, Repr

/-- the fewest decimal digits that the longer floats accept -/
def fewestDigits : Int := 10

/-- evidence as a list of pairs, numerators and denominators apart -/
def evidenceText (evidence : List (Rat × Nat)) : String :=
  "[" ++ ", ".intercalate (evidence.map fun e =>
    "(Fraction(" ++ toString e.1.num ++ ", " ++ toString e.1.den ++ "), " ++ toString e.2 ++ ")") ++ "]"

/-- what the limit on digits in text is explained by -/
def limitText (most : Nat) (found : String) : String :=
  "Exceeds the limit (" ++ toString most ++ " digits) for integer string conversion" ++ found
    ++ "; use sys.set_int_max_str_digits() to increase the limit"

/-- the explanation of a fault -/
def Fault.message : Fault → String
  | badNumber text => "Invalid literal for Fraction: " ++ Text.quoted text
  | badDecimals letters => "invalid literal for int() with base 10: " ++ Text.quoted letters
  | tooLongToRead most digits => limitText most (": value has " ++ toString digits ++ " digits")
  | tooLongToWrite most => limitText most ""
  | divisionByZero => "division by zero"
  | doubleOverflow => "integer division result too large for a float"
  | outOfRange => "index out of range"
  | missingEntry => "missing entry"
  | mixedOperands => "unsupported operands"
  | fewDigits n =>
    "Extended precision needs at least " ++ toString fewestDigits ++ " digits, got " ++ toString n
  | badRelation word => Text.quoted word ++ " is not a valid ConstraintKind"
  | badPlace word => Text.quoted word ++ " is not a valid NonBasicPosition"
  | badOutcome word => Text.quoted word ++ " is not a valid EngineStatus"
  | zeroScale => "Normalization scale must be nonzero"
  | unknownVariable ref => "Unknown variable index " ++ ref.text
  | noRetraction => "Constraint retraction is not supported"
  | noModel v => "A model is only available when satisfiable, status is " ++ v.word
  | noEvidence v => "Evidence is only available when unsatisfiable, status is " ++ v.word
  | noDelta v => "Delta is only available when satisfiable, status is " ++ v.word
  | rejectedEvidence evidence => "Infeasibility evidence failed verification: " ++ evidenceText evidence
  | missingBound side weight =>
    "Left side " ++ toString side ++ " is used with weight " ++ Text.fraction weight ++ " but has no "
      ++ (if 0 < weight then "upper" else "low") ++ " bound"
  | unreadableTerm rest => "Cannot parse term at " ++ Text.quoted rest
  | missingOperator name => "Missing operator before " ++ Text.quoted name
  | undeclared name => "Undeclared variable " ++ Text.quoted name
  | emptyLeftSide => "Empty left side"
  | relationCount line => "expected exactly one relation in " ++ Text.quoted line
  | atLine number cause => "Line " ++ toString number ++ ": " ++ cause.message
  | unknownEngine word =>
    "Unknown approximate engine " ++ Text.quoted word ++ ", expected one of ('highs', 'simplex')"
  | precisionWithoutSimplex => "approximate_precision requires the 'simplex' approximate engine"
  | lowPrecision n =>
    "approximate_precision must be at least " ++ toString fewestDigits ++ " digits, got " ++ toString n
  | badPivotLimit n => "max_iterations must be positive, got " ++ toString n

end Halfspace
