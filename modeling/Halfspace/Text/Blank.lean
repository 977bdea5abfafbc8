/-
White space: the 29 characters that separate words and pad numbers, and the cuts made with them.

`trim` drops the white space at both ends, `words` cuts a text into its maximal runs without any. Four of the
characters are information separators; where these are not to count as white space, `trimPadding` keeps them.
-/

namespace Halfspace.Text

/-- code points of the white space characters -/
def blankCodes : List Nat :=
  [0x09, 0x0a, 0x0b, 0x0c, 0x0d, 0x1c, 0x1d, 0x1e, 0x1f, 0x20, 0x85, 0xa0, 0x1680, 0x2000, 0x2001, 0x2002, 0x2003,
    0x2004, 0x2005, 0x2006, 0x2007, 0x2008, 0x2009, 0x200a, 0x2028, 0x2029, 0x202f, 0x205f, 0x3000]

def isBlank (c : Char) : Bool := blankCodes.contains c.toNat

/-- white space other than the four information separators -/
def isPadding (c : Char) : Bool := isBlank c && !(0x1c ≤ c.toNat && c.toNat ≤ 0x1f)

/-- drop white space at the front -/
def skipBlanks (cs : List Char) : List Char := cs.dropWhile isBlank

/-- drop white space at both ends -/
def trim (cs : List Char) : List Char := (skipBlanks (skipBlanks cs).reverse).reverse

/-- drop white space other than information separators at both ends -/
def trimPadding (cs : List Char) : List Char := ((cs.dropWhile isPadding).reverse.dropWhile isPadding).reverse

/-- cut a list at every element that satisfies `p`; one piece more than there are cuts -/
def cutAt {α : Type} (p : α → Bool) : List α → List (List α)
  | [] => [[]]
  | a :: rest =>
    match cutAt p rest with
    | [] => [[a]]
    | piece :: pieces => if p a then [] :: piece :: pieces else (a :: piece) :: pieces

/-- the maximal runs without white space -/
def words (cs : List Char) : List (List Char) := (cutAt isBlank cs).filter (!·.isEmpty)

end Halfspace.Text
