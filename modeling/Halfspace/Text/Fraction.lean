/-
The text of a rational number: its numerator, and after a stroke its denominator unless that is one. The number
is in lowest terms with the sign in front, so equal numbers have equal texts.
-/

namespace Halfspace.Text

/-- a rational number as text -/
def fraction (q : Rat) : String :=
  if q.den = 1 then toString q.num else toString q.num ++ "/" ++ toString q.den

end Halfspace.Text
