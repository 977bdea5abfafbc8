/-
Numbers as callers write them.

A numeral is a number or a text. A text writes a number as an optional sign, digits and then either a stroke and
a denominator, or an optional decimal point with more digits and an optional power of ten:

    -3/4    +7    .5    2.    1_000.25e-3

White space may stand around it, not inside; an underscore may stand between two digits; any script's decimal
digits count. The value is exact. After digits and a point the letter `d` may hold the place of decimals, any number of
times; such a text is taken for a number whose decimals cannot be read. A text is first taken apart into its runs of
digits (`scan`), and then each of them is turned into an integer, as far as the limit on digits lets it (`read`).
-/
import Halfspace.DigitLimit
import Halfspace.Text.Blank
import Halfspace.Text.Digit

namespace Halfspace

inductive Numeral where
  | number (q : Rat)
  | text (s : String)
  deriving DecidableEq, Repr

namespace Numeral

/-- an optional sign at the front of a text: whether it is negative, and what follows -/
def sign : List Char → Bool × List Char
  | '-' :: rest => (true, rest)
  | '+' :: rest => (false, rest)
  | cs => (false, cs)

/-- whether a letter may hold the place of a decimal -/
def holdsPlace (c : Char) : Bool := c = 'd' || c = 'D'

/-! ## The parts of a text -/

/-- a power of ten as written: whether it is negative, and its digits, none where no power is written -/
structure Power where
  negative : Bool := false
  digits : List Nat := []
  deriving DecidableEq, Repr

/-- a number without its sign as written -/
inductive Magnitude where
  | quotient (top bottom : List Nat)
  | decimal (whole decimals : List Nat) (power : Power)
  /-- letters in the place of decimals -/
  | lettered (whole : List Nat) (letters : String)
  deriving DecidableEq, Repr

/-- an optional power of ten; a letter that no digit follows is left where it stands -/
def exponent (cs : List Char) : Power × List Char :=
  match cs with
  | [] => ({}, [])
  | c :: rest =>
    if c = 'e' || c = 'E' then
      let (negative, digitsOn) := sign rest
      match Text.groupedDigits digitsOn with
      | ([], _) => ({}, cs)
      | (digits, rest) => (⟨negative, digits⟩, rest)
    else ({}, cs)

/-- the optional power of ten that ends a number; `none` when something else follows -/
def scanPower (f : Power → Magnitude) (cs : List Char) : Option Magnitude :=
  match exponent cs with
  | (power, []) => some (f power)
  | _ => none

/-- what follows the point of a number with digits before it, up to its end -/
def scanDecimals (whole : List Nat) (cs : List Char) : Option Magnitude :=
  match cs.takeWhile holdsPlace with
  | [] =>
    let (decimals, rest) := Text.groupedDigits cs
    scanPower (.decimal whole decimals) rest
  | letters => scanPower (fun _ => .lettered whole (String.ofList letters)) (cs.dropWhile holdsPlace)

/-- what follows the sign of a number up to its end; `none` when this is no number -/
def scan (cs : List Char) : Option Magnitude :=
  match Text.groupedDigits cs with
  | ([], '.' :: rest) =>
    match Text.groupedDigits rest with
    | ([], _) => none
    | (decimals, rest) => scanPower (.decimal [] decimals) rest
  | ([], _) => none
  | (whole, '/' :: rest) =>
    match Text.groupedDigits rest with
    | ([], _) => none
    | (bottom, rest) => if rest.isEmpty then some (.quotient whole bottom) else none
  | (whole, '.' :: rest) => scanDecimals whole rest
  | (whole, rest) => scanPower (.decimal whole []) rest

/-! ## The number of a text -/

/-- the value of `whole.decimals` times ten to the `power` -/
def decimalValue (whole decimals : List Nat) (power : Int) : Rat :=
  let mantissa := Text.numberOf (whole ++ decimals)
  let shift := power - decimals.length
  mkRat (mantissa * Nat.pow 10 shift.toNat) (Nat.pow 10 (-shift).toNat)

def Power.value (power : Power) : Int :=
  if power.negative then -(Text.numberOf power.digits : Int) else Text.numberOf power.digits

namespace Magnitude

/-- the runs of digits that are turned into integers, in their order; letters stop this -/
def runs : Magnitude → List (List Nat)
  | quotient top bottom => [top, bottom]
  | decimal whole decimals power => [whole, decimals, power.digits]
  | lettered whole _ => [whole]

/-- the number that is written, once its runs of digits are integers -/
def number : Magnitude → Except Fault Rat
  | quotient top bottom =>
    if Text.numberOf bottom = 0 then .error .divisionByZero
    else .ok (mkRat (Text.numberOf top) (Text.numberOf bottom))
  | decimal whole decimals power => .ok (decimalValue whole decimals power.value)
  | lettered _ letters => .error (.badDecimals letters)

def value (m : Magnitude) (limit : DigitLimit) : Except Fault Rat := do
  limit.checkRuns m.runs
  m.number

end Magnitude

/-- the number that a text writes -/
def read (s : String) (limit : DigitLimit) : Except Fault Rat :=
  let (negative, rest) := sign (Text.trim s.toList)
  match scan rest with
  | none => .error (.badNumber s)
  | some m => do
    let q ← m.value limit
    return if negative then -q else q

/-- the number that a caller means -/
def value (numeral : Numeral) (limit : DigitLimit := none) : Except Fault Rat :=
  match numeral with
  | number q => .ok q
  | text s => read s limit

end Numeral

end Halfspace
