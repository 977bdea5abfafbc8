/-
Rounding rationals to binary floating-point grids.

`nearestEven` rounds to an integer, a half going to the even neighbour. `significant` keeps the leading `precision`
binary digits of a rational, and stops at a lowest exponent when one is given, below which the grid gets no finer.
Every floating-point operation of this library is the exact operation on rationals followed by one such rounding.
-/

namespace Halfspace.Rounding

/-- two to a power of either sign -/
def twoPow : Int → Rat
  | .ofNat n => mkRat (Nat.pow 2 n) 1
  | .negSucc n => mkRat 1 (Nat.pow 2 (n + 1))

/-- the nearest integer, a half going to the even one -/
def nearestEven (q : Rat) : Int :=
  let below := q.floor
  let excess := q - below
  if excess < 1 / 2 then below
  else if 1 / 2 < excess then below + 1
  else if below % 2 = 0 then below
  else below + 1

/-- the nearest multiple of `2 ^ e`, a half going to the even one -/
def onGrid (e : Int) (q : Rat) : Rat := nearestEven (q / twoPow e) * twoPow e

/-- the `k` with `2 ^ k ≤ |q| < 2 ^ (k + 1)`, for `q` other than zero -/
def leadingExponent (q : Rat) : Int :=
  let k : Int := (q.num.natAbs.log2 : Int) - (q.den.log2 : Int)
  if twoPow k ≤ q.abs then k else k - 1

/-- the exponent of the grid on which `precision` digits of `q` end -/
def gridExponent (precision : Nat) (lowest : Option Int) (q : Rat) : Int :=
  let e := leadingExponent q + 1 - precision
  match lowest with
  | none => e
  | some l => if e < l then l else e

/-- the leading `precision` binary digits, correctly rounded -/
def significant (precision : Nat) (lowest : Option Int) (q : Rat) : Rat :=
  if q = 0 then 0 else onGrid (gridExponent precision lowest q) q

end Halfspace.Rounding
