/-
Settings of a solver.

A `Request` is what a caller asks for; `Settings.ofRequest` accepts it or says what is wrong with it, the first
objection winning. With it goes the limit on digits in text, which the system sets and no caller.
-/
import Halfspace.Arithmetic
import Halfspace.DigitLimit

namespace Halfspace

/-- the engine of the approximate pass -/
inductive EngineChoice where
  /-- an engine outside this library, over doubles -/
  | outside
  /-- the simplex of this library -/
  | simplex
  deriving DecidableEq, Repr

def EngineChoice.word : EngineChoice → String
  | outside => "highs"
  | simplex => "simplex"

def EngineChoice.read (word : String) : Except Fault EngineChoice :=
  match [EngineChoice.outside, EngineChoice.simplex].find? (·.word = word) with
  | some e => .ok e
  | none => .error (.unknownEngine word)

structure Request where
  engine : String := EngineChoice.outside.word
  /-- decimal digits of the approximate pass; doubles without -/
  precision : Option Int := none
  /-- tolerance of comparisons between doubles -/
  tolerance : Double := Arithmetic.usualTolerance
  pivotLimit : Int := 100000
  /-- whether the outside engine scales its problem first -/
  scale : Bool := true
  /-- whether evidence is checked before it is given out -/
  verify : Bool := true
  /-- whether progress is reported -/
  verbose : Bool := false
  /-- the most digits of an integer in text -/
  digitLimit : DigitLimit := none

structure Settings where
  engine : EngineChoice := .outside
  precision : Option Nat := none
  tolerance : Double := Arithmetic.usualTolerance
  pivotLimit : Nat := 100000
  scale : Bool := true
  verify : Bool := true
  verbose : Bool := false
  digitLimit : DigitLimit := none
  deriving DecidableEq, Repr

namespace Settings

/-- the digits asked for, which only the simplex can use -/
def checkPrecision (engine : EngineChoice) : Option Int → Except Fault (Option Nat)
  | none => .ok none
  | some digits =>
    if engine ≠ .simplex then .error .precisionWithoutSimplex
    else if digits < fewestDigits then .error (.lowPrecision digits)
    else .ok (some digits.toNat)

def checkLimit (limit : Int) : Except Fault Nat :=
  if limit ≤ 0 then .error (.badPivotLimit limit) else .ok limit.toNat

def ofRequest (r : Request) : Except Fault Settings := do
  let engine ← EngineChoice.read r.engine
  let precision ← checkPrecision engine r.precision
  let pivotLimit ← checkLimit r.pivotLimit
  return {
    engine, precision, pivotLimit
    tolerance := r.tolerance
    scale := r.scale
    verify := r.verify
    verbose := r.verbose
    digitLimit := r.digitLimit }

/-- whether the binary digits of the approximate pass are a number within the doubles -/
def hasDigits (settings : Settings) : Bool :=
  settings.precision.all fun digits => (Arithmetic.binaryDigits? digits).isSome

end Settings

end Halfspace
