/-
The arithmetics in which a problem can be stated and solved.

The engine is written once over an `Arithmetic K V`: `K` holds coefficients, `V` the values of columns. The record
says how exact numbers enter, how the two types combine and how values compare. There are three of them:

- `Arithmetic.exact`: rational coefficients and `Delta` values, compared exactly. A strict bound is moved off its
  number by one infinitesimal.
- `Arithmetic.double tolerance`: doubles, compared up to an absolute tolerance.
- `Arithmetic.extended digits`: longer binary floats, every operation rounded to the precision that the decimal
  digits ask for.

The last two drop the strictness of bounds. All operations are total; `quotient` refuses the divisors that
`isNull` names.

The longer floats come from the library `mpmath`, and this is what is assumed of it:
- its numbers are zero and the rationals with as many binary digits as the working precision, of any exponent: there is
  no infinity, no signed zero, and nothing below which numbers get coarser;
- an integer made a float and the result of each operation, the sign and the absolute value among them, are the exact
  number, rounded once to the working precision, half to even; comparisons are exact, and an integer by which a float is
  divided is not rounded before;
- the working precision is the one that `binaryDigits?` counts from the decimal digits;
- a conversion to a double rounds to the digits of a double first and into its range afterwards;
- the tolerance is reckoned before the working precision is set, with the digits of a double (`extendedTolerance`).
-/
import Halfspace.Delta
import Halfspace.Double
import Halfspace.Fault

namespace Halfspace

structure Arithmetic (K V : Type) where
  /-- the name in progress reports -/
  name : String
  /-- absolute tolerance of comparisons; `none` when they are exact -/
  tolerance : Option Double
  /-- decimal digits, where they can be chosen -/
  digits : Option Nat
  /-- the value zero -/
  zero : V
  /-- the coefficients zero and one -/
  null : K
  one : K
  /-- a coefficient from an exact number -/
  coefficient : Rat → Except Fault K
  /-- the double that stands for a coefficient -/
  asDouble : K → Except Fault Double
  /-- the values of a low and of an upper bound, from its number and whether it is strict -/
  lowBound : Rat → Bool → Except Fault V
  upperBound : Rat → Bool → Except Fault V
  neg : K → K
  add : K → K → K
  mul : K → K → K
  div : K → K → K
  /-- divisors that are refused -/
  isNull : K → Bool
  plus : V → V → V
  minus : V → V → V
  scale : K → V → V
  unscale : K → V → V
  /-- tests of coefficients against zero -/
  isZero : K → Bool
  isPositive : K → Bool
  isNegative : K → Bool
  /-- tests of values against zero -/
  vanishes : V → Bool
  exceedsZero : V → Bool
  belowZero : V → Bool
  /-- whether one value is below, or above, another -/
  less : V → V → Bool
  greater : V → V → Bool

namespace Arithmetic

variable {K V : Type} (A : Arithmetic K V)

/-- values that are neither below nor above one another -/
def same (a b : V) : Bool := !A.less a b && !A.greater a b

def isExact : Bool := A.tolerance.isNone

/-- the quotient of coefficients -/
def quotient (a b : K) : Except Fault K :=
  if A.isNull b then .error .divisionByZero else .ok (A.div a b)

/-- the quotient of a value by a coefficient -/
def quotientOf (v : V) (k : K) : Except Fault V :=
  if A.isNull k then .error .divisionByZero else .ok (A.unscale k v)

/-- an exact number as a double -/
def toDouble (q : Rat) : Except Fault Double :=
  match Double.ofRat? q with
  | some a => .ok a
  | none => .error .doubleOverflow

/-! ## Exact numbers -/

def exact : Arithmetic Rat Delta where
  name := "exact"
  tolerance := none
  digits := none
  zero := Delta.zero
  null := 0
  one := 1
  coefficient := .ok
  asDouble := toDouble
  lowBound c strict := .ok ⟨c, if strict then 1 else 0⟩
  upperBound c strict := .ok ⟨c, if strict then -1 else 0⟩
  neg a := -a
  add a b := a + b
  mul a b := a * b
  div a b := a / b
  isNull a := a = 0
  plus a b := a + b
  minus a b := a - b
  scale k v := v.scale k
  unscale k v := v.unscale k
  isZero a := a = 0
  isPositive a := 0 < a
  isNegative a := a < 0
  vanishes v := v = Delta.zero
  exceedsZero v := Delta.zero < v
  belowZero v := v < Delta.zero
  less a b := a < b
  greater a b := b < a

/-! ## Doubles -/

/-- the tolerance that doubles are given unless another is asked for: the double nearest to `10 ^ -9` -/
def usualTolerance : Double := Double.ofRat (mkRat 1 (Nat.pow 10 9))

def double (tolerance : Double) : Arithmetic Double Double where
  name := "double"
  tolerance := some tolerance
  digits := none
  zero := Double.zero
  null := Double.zero
  one := Double.one
  coefficient := toDouble
  asDouble := .ok
  lowBound c _ := toDouble c
  upperBound c _ := toDouble c
  neg := Double.neg
  add := Double.add
  mul := Double.mul
  div := Double.div
  isNull := Double.isZero
  plus := Double.add
  minus := Double.sub
  scale := Double.mul
  unscale := fun k v => v.div k
  isZero a := a.abs.le tolerance
  isPositive a := tolerance.lt a
  isNegative a := a.lt tolerance.neg
  vanishes a := a.abs.le tolerance
  exceedsZero a := tolerance.lt a
  belowZero a := a.lt tolerance.neg
  less a b := a.lt (b.sub tolerance)
  greater a b := (b.add tolerance).lt a

/-! ## Longer floats -/

/-- binary digits that `digits` decimal ones ask for: `digits + 1` times the binary logarithm of ten, the product of
the two nearest doubles, rounded to an integer and at least one; none where the product is beyond the doubles -/
def binaryDigits? (digits : Nat) : Option Nat :=
  let product := (Double.ofRat (digits + 1 : Nat)).mul (Double.ofRat (mkRat 33219280948873626 (Nat.pow 10 16)))
  product.value?.map fun q => max 1 (Rounding.nearestEven q).toNat

/-- the same as `binaryDigits?`, a single one where there are none -/
def binaryDigits (digits : Nat) : Nat := (binaryDigits? digits).getD 1

/-- round to a number of binary digits -/
def rounded (precision : Nat) (q : Rat) : Rat := Rounding.significant precision none q

/-- five decimal digits short of full precision, as a double. The power of ten is rounded with five binary digits
more than a double has, and then its reciprocal to the digits of a double, so that the last digit may differ from
that of the nearest double -/
def extendedTolerance (digits : Nat) : Double :=
  Double.ofRat (rounded Double.digits (1 / rounded (Double.digits + 5) (mkRat (Nat.pow 10 (digits - 5)) 1)))

/-- an exact number at some precision: the numerator is rounded first, then its quotient by the denominator -/
def toExtended (precision : Nat) (q : Rat) : Rat := rounded precision (rounded precision q.num / q.den)

/-- an extended number as a double: first to the digits of a double, then into its range -/
def extendedToDouble (q : Rat) : Double := Double.ofRat (rounded Double.digits q)

def extended (digits : Nat) : Arithmetic Rat Rat :=
  let round := rounded (binaryDigits digits)
  let convert := toExtended (binaryDigits digits)
  let tolerance := extendedTolerance digits
  let slack := tolerance.value?.getD 0
  { name := "mpf" ++ toString digits
    tolerance := some tolerance
    digits := some digits
    zero := 0
    null := 0
    one := 1
    coefficient := fun q => .ok (convert q)
    asDouble := fun a => .ok (extendedToDouble a)
    lowBound := fun c _ => .ok (convert c)
    upperBound := fun c _ => .ok (convert c)
    neg := fun a => round (-a)
    add := fun a b => round (a + b)
    mul := fun a b => round (a * b)
    div := fun a b => round (a / b)
    isNull := fun a => a = 0
    plus := fun a b => round (a + b)
    minus := fun a b => round (a - b)
    scale := fun k v => round (k * v)
    unscale := fun k v => round (v / k)
    isZero := fun a => round a.abs ≤ slack
    isPositive := fun a => slack < a
    isNegative := fun a => a < -slack
    vanishes := fun a => round a.abs ≤ slack
    exceedsZero := fun a => slack < a
    belowZero := fun a => a < -slack
    less := fun a b => a < round (b - slack)
    greater := fun a b => round (b + slack) < a }

/-- the same as `extended`, refusing too few digits -/
def extended? (digits : Int) : Except Fault (Arithmetic Rat Rat) :=
  if digits < fewestDigits then .error (.fewDigits digits) else .ok (extended digits.toNat)

end Arithmetic

end Halfspace
