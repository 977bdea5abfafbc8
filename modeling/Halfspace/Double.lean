/-
Binary floating-point numbers of double precision, as values.

A finite double is the rational that it denotes, so that every operation reads as "compute exactly, then round once":
53 binary digits, none below `2 ^ -1074`, infinity from `2 ^ 1024` on. What a rational cannot say has constructors
of its own: the negative zero, the infinities and the undefined value, under the usual rules for signs and for
comparisons, where the undefined value is neither below nor above anything.

Division by zero is defined here as a limit; the programs that must refuse it ask `isZero` first.
-/
import Halfspace.Rounding

namespace Halfspace

inductive Double where
  | finite (q : Rat)
  | negZero
  | posInf
  | negInf
  | nan
  deriving DecidableEq, Repr

namespace Double

def digits : Nat := 53

def lowestExponent : Int := -1074

/-- the least power of two that is no double -/
def limit : Rat := Rounding.twoPow 1024

def zero : Double := finite 0

def one : Double := finite 1

def signedZero (negative : Bool) : Double := if negative then negZero else finite 0

def signedInf (negative : Bool) : Double := if negative then negInf else posInf

/-- the double nearest to `q`; where that is zero, the zero of the given sign -/
def nearest (negative : Bool) (q : Rat) : Double :=
  let r := Rounding.significant digits (some lowestExponent) q
  if r = 0 then signedZero negative
  else if limit ≤ r then posInf
  else if r ≤ -limit then negInf
  else finite r

/-- the double nearest to `q`, a result that vanishes keeping the sign of `q` -/
def ofRat (q : Rat) : Double := nearest (q < 0) q

/-- the rational denoted, zero for both zeros -/
def value? : Double → Option Rat
  | finite q => some q
  | negZero => some 0
  | _ => none

def isFinite (a : Double) : Bool := a.value?.isSome

/-- the same as `ofRat`, refusing what is too large -/
def ofRat? (q : Rat) : Option Double :=
  let a := ofRat q
  if a.isFinite then some a else none

def isNaN : Double → Bool
  | nan => true
  | _ => false

def isZero (a : Double) : Bool := a.value? = some 0

/-- the sign bit -/
def isNegative : Double → Bool
  | finite q => q < 0
  | negZero => true
  | posInf => false
  | negInf => true
  | nan => false

def neg : Double → Double
  | finite q => if q = 0 then negZero else finite (-q)
  | negZero => finite 0
  | posInf => negInf
  | negInf => posInf
  | nan => nan

def abs (a : Double) : Double := if a.isNegative then a.neg else a

/-- a sum that vanishes is the positive zero, save that of two negative zeros -/
def add : Double → Double → Double
  | finite x, finite y => ofRat (x + y)
  | finite x, negZero => finite x
  | negZero, finite y => finite y
  | negZero, negZero => negZero
  | nan, _ => nan
  | _, nan => nan
  | posInf, negInf => nan
  | negInf, posInf => nan
  | posInf, _ => posInf
  | negInf, _ => negInf
  | _, posInf => posInf
  | _, negInf => negInf

def sub (a b : Double) : Double := a.add b.neg

/-- whether exactly one of two numbers is negative -/
def signsDiffer (a b : Double) : Bool := a.isNegative != b.isNegative

/-- zero times infinity is undefined -/
def mul (a b : Double) : Double :=
  match a.value?, b.value? with
  | some x, some y => nearest (a.signsDiffer b) (x * y)
  | _, _ =>
    if a.isNaN || b.isNaN || a.isZero || b.isZero then nan else signedInf (a.signsDiffer b)

def div (a b : Double) : Double :=
  match a.value?, b.value? with
  | some x, some y =>
    if y = 0 then (if x = 0 then nan else signedInf (a.signsDiffer b))
    else nearest (a.signsDiffer b) (x / y)
  | some _, none => if b.isNaN then nan else signedZero (a.signsDiffer b)
  | none, some _ => if a.isNaN then nan else signedInf (a.signsDiffer b)
  | none, none => nan

def lt : Double → Double → Bool
  | nan, _ => false
  | _, nan => false
  | _, negInf => false
  | posInf, _ => false
  | negInf, _ => true
  | _, posInf => true
  | finite x, finite y => x < y
  | finite x, negZero => x < 0
  | negZero, finite y => 0 < y
  | negZero, negZero => false

def le (a b : Double) : Bool := !a.isNaN && !b.isNaN && !b.lt a

/-- the larger of two; undefined as soon as one of them is -/
def max (a b : Double) : Double :=
  if a.isNaN || b.isNaN then nan else if a.lt b then b else a

/-! ## Bits -/

/-- the sign bit, set for negative numbers -/
def signBit (negative : Bool) : Nat := if negative then Nat.pow 2 63 else 0

/-- the exponent field full and the fraction empty -/
def infiniteBits : Nat := 2047 * Nat.pow 2 52

/-- exponent field and fraction of a finite number that is not negative -/
def magnitudeBits (q : Rat) : Nat :=
  if q = 0 then 0
  else
    let e := Rounding.gridExponent digits (some lowestExponent) q
    (e - lowestExponent).toNat * Nat.pow 2 52 + (q / Rounding.twoPow e).num.toNat

/-- the 64 bits of a number, sign first, then 11 of exponent, then 52 of fraction; `none` for the undefined value -/
def bits? : Double → Option Nat
  | finite q => some (signBit (q < 0) + magnitudeBits q.abs)
  | negZero => some (signBit true)
  | posInf => some infiniteBits
  | negInf => some (signBit true + infiniteBits)
  | nan => none

end Double

end Halfspace
