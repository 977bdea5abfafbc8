/-
Quoted texts, as they appear in error messages.

A text stands in single quotes, or in double quotes when it holds a single quote and no double one. The quote in
use and the backslash are escaped, tab, line feed and carriage return have their short escapes, and any other
character without a printed form is written by its code point with two, four or eight hexadecimal digits.
-/
import Halfspace.Text.Printable

namespace Halfspace.Text

/-- one hexadecimal digit, lower case -/
def hexDigit (n : Nat) : Char := if n < 10 then Char.ofNat (48 + n) else Char.ofNat (87 + n)

/-- the last `width` hexadecimal digits of `n` -/
def hexDigits : Nat → Nat → List Char
  | 0, _ => []
  | width + 1, n => hexDigits width (n / 16) ++ [hexDigit (n % 16)]

/-- the escape of a character without a printed form -/
def codeEscape (n : Nat) : List Char :=
  if n < 256 then '\\' :: 'x' :: hexDigits 2 n
  else if n < 65536 then '\\' :: 'u' :: hexDigits 4 n
  else '\\' :: 'U' :: hexDigits 8 n

/-- one character of a quoted text -/
def quotedChar (quote c : Char) : List Char :=
  if c = quote || c = '\\' then ['\\', c]
  else if c = '\t' then ['\\', 't']
  else if c = '\n' then ['\\', 'n']
  else if c = '\r' then ['\\', 'r']
  else if isPrintable c then [c]
  else codeEscape c.toNat

/-- the quote in which a text stands -/
def quoteFor (cs : List Char) : Char := if cs.contains '\'' && !cs.contains '"' then '"' else '\''

/-- a text in quotes -/
def quoted (s : String) : String :=
  let quote := quoteFor s.toList
  String.ofList (quote :: s.toList.flatMap (quotedChar quote) ++ [quote])

end Halfspace.Text
