/-
Left sides as they are written in problem files.

A left side is a sequence of terms such as `2*x - 3/2*y + z`. A term is an optional sign, an optional coefficient
(digits, or digits over digits), an optional star and a name, with white space allowed between these parts; every
term but the first needs its sign. A name starts with a letter or an underscore and goes on with those and digits,
all of them in plain ASCII. `readTerm` reads the next term of a text and `read` a whole text.
-/
import Halfspace.LinearForm
import Halfspace.Text.Blank
import Halfspace.Text.Digit

namespace Halfspace.LeftSide

/-! ## Names -/

def isNameStart (c : Char) : Bool :=
  ('A' ≤ c && c ≤ 'Z') || ('a' ≤ c && c ≤ 'z') || c = '_'

def isNameChar (c : Char) : Bool := isNameStart c || ('0' ≤ c && c ≤ '9')

/-- the name at the front of a text and what follows it -/
def readName : List Char → Option (String × List Char)
  | [] => none
  | c :: rest =>
    if isNameStart c then some (String.ofList (c :: rest.takeWhile isNameChar), rest.dropWhile isNameChar)
    else none

/-! ## Terms -/

/-- a coefficient as written: a numerator, and a denominator after a stroke -/
structure Coefficient where
  top : List Nat
  bottom : Option (List Nat)
  deriving DecidableEq, Repr

/-- a term as written -/
structure WrittenTerm where
  /-- whether there is a sign, and then whether it is a minus -/
  sign : Option Bool
  coef : Option Coefficient
  name : String
  deriving DecidableEq, Repr

def readSign : List Char → Option Bool × List Char
  | '-' :: rest => (some true, rest)
  | '+' :: rest => (some false, rest)
  | cs => (none, cs)

/-- the denominator at the front of a text, if a stroke with digits after it stands there -/
def readDenominator : List Char → Option (List Nat) × List Char
  | '/' :: rest =>
    match Text.plainDigits rest with
    | ([], _) => (none, '/' :: rest)
    | (digits, rest) => (some digits, rest)
  | cs => (none, cs)

def readCoefficient (cs : List Char) : Option Coefficient × List Char :=
  match Text.plainDigits cs with
  | ([], _) => (none, cs)
  | (digits, rest) =>
    let (bottom, rest) := readDenominator rest
    (some ⟨digits, bottom⟩, rest)

def skipStar : List Char → List Char
  | '*' :: rest => rest
  | cs => cs

/-- the next term of a text, and what follows it and the white space after it -/
def readTerm (cs : List Char) : Option (WrittenTerm × List Char) :=
  let (sign, cs) := readSign (Text.skipBlanks cs)
  let (coef, cs) := readCoefficient (Text.skipBlanks cs)
  match readName (Text.skipBlanks (skipStar (Text.skipBlanks cs))) with
  | none => none
  | some (name, rest) => some (⟨sign, coef, name⟩, Text.skipBlanks rest)

/-- the runs of digits of a coefficient, in their order -/
def Coefficient.runs (c : Coefficient) : List (List Nat) := c.top :: c.bottom.toList

/-- the number that a coefficient writes, as far as the limit on digits lets it be read -/
def Coefficient.value (c : Coefficient) (limit : DigitLimit) : Except Fault Rat := do
  limit.checkRuns c.runs
  match c.bottom with
  | none => return mkRat (Text.numberOf c.top) 1
  | some bottom =>
    if Text.numberOf bottom = 0 then .error .divisionByZero
    else return mkRat (Text.numberOf c.top) (Text.numberOf bottom)

/-- the signed coefficient of a term, one where none is written -/
def WrittenTerm.value (t : WrittenTerm) (limit : DigitLimit) : Except Fault Rat := do
  let q ← match t.coef with
    | none => .ok 1
    | some c => c.value limit
  return if t.sign = some true then -q else q

/-! ## Left sides -/

/-- what a term means, given the ids of names; `first` says that no term came before -/
def WrittenTerm.toTerm (ids : String → Option Int) (limit : DigitLimit) (first : Bool) (t : WrittenTerm) :
    Except Fault Term :=
  if !first && t.sign.isNone then .error (.missingOperator t.name)
  else
    match ids t.name with
    | none => .error (.undeclared t.name)
    | some x => do return ⟨← t.value limit, x⟩

/-- the terms of a text up to its end; `fuel` bounds their number -/
def readTerms (ids : String → Option Int) (limit : DigitLimit) :
    (fuel : Nat) → (first : Bool) → List Char → Except Fault LinearForm
  | _, _, [] => .ok []
  | 0, _, cs => .error (.unreadableTerm (String.ofList cs))
  | fuel + 1, first, cs =>
    match readTerm cs with
    | none => .error (.unreadableTerm (String.ofList cs))
    | some (written, rest) => do
      let t ← written.toTerm ids limit first
      return t :: (← readTerms ids limit fuel false rest)

/-- the terms that a text writes, given the ids of names -/
def read (ids : String → Option Int) (cs : List Char) (limit : DigitLimit := none) : Except Fault LinearForm :=
  match Text.trim cs with
  | [] => .error .emptyLeftSide
  | trimmed => readTerms ids limit trimmed.length true trimmed

end Halfspace.LeftSide
