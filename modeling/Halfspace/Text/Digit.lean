/-
Decimal digits of every script.

Each script that writes numbers in base ten has ten consecutive code points for its digits (version 14 of the
Unicode character database, class Nd); `zeroDigits` lists the first of each ten. `digit?` reads one digit and
`numberOf` a run of them.
-/

namespace Halfspace.Text

/-- the code points of the zeros, in increasing order -/
def zeroDigits : List Nat :=
  [
    0x30, 0x660, 0x6f0, 0x7c0, 0x966, 0x9e6, 0xa66, 0xae6, 0xb66, 0xbe6, 0xc66, 0xce6, 0xd66, 0xde6, 0xe50,
    0xed0, 0xf20, 0x1040, 0x1090, 0x17e0, 0x1810, 0x1946, 0x19d0, 0x1a80, 0x1a90, 0x1b50, 0x1bb0, 0x1c40,
    0x1c50, 0xa620, 0xa8d0, 0xa900, 0xa9d0, 0xa9f0, 0xaa50, 0xabf0, 0xff10, 0x104a0, 0x10d30, 0x11066, 0x110f0,
    0x11136, 0x111d0, 0x112f0, 0x11450, 0x114d0, 0x11650, 0x116c0, 0x11730, 0x118e0, 0x11950, 0x11c50, 0x11d50,
    0x11da0, 0x16a60, 0x16ac0, 0x16b50, 0x1d7ce, 0x1d7d8, 0x1d7e2, 0x1d7ec, 0x1d7f6, 0x1e140, 0x1e2f0, 0x1e950,
    0x1fbf0
  ]

/-- the value of a decimal digit -/
def digit? (c : Char) : Option Nat :=
  (zeroDigits.find? fun z => z ≤ c.toNat && c.toNat ≤ z + 9).map (c.toNat - ·)

/-- whether a character is a decimal digit of some script -/
def isDigit (c : Char) : Bool := (digit? c).isSome

/-- the number that a run of digits writes, most significant first -/
def numberOf (digits : List Nat) : Nat := digits.foldl (fun n d => 10 * n + d) 0

/-- the digits at the front of a text and what follows them; one underscore may stand between two digits -/
def groupedDigits : List Char → List Nat × List Char
  | [] => ([], [])
  | c :: rest =>
    match digit? c with
    | none => ([], c :: rest)
    | some d =>
      match rest with
      | '_' :: c' :: rest' =>
        if isDigit c' then
          let more := groupedDigits (c' :: rest')
          (d :: more.1, more.2)
        else ([d], '_' :: c' :: rest')
      | rest =>
        let more := groupedDigits rest
        (d :: more.1, more.2)

/-- the digits at the front of a text and what follows them -/
def plainDigits : List Char → List Nat × List Char
  | [] => ([], [])
  | c :: rest =>
    match digit? c with
    | none => ([], c :: rest)
    | some d =>
      let more := plainDigits rest
      (d :: more.1, more.2)

end Halfspace.Text
