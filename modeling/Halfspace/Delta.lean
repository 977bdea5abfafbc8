/-
Rationals with an infinitesimal part.

A `Delta` is `base + slope·ε` for a positive ε below every rational of interest. A strict bound is a weak bound on
these numbers: `x > c` is `x ≥ c + ε` and `x < c` is `x ≤ c - ε`. The order is lexicographic, which is the order
of `base + slope·ε` for every ε that is small enough; `Delta.valueAt` puts a rational in the place of ε.
-/
import Halfspace.Text.Fraction

namespace Halfspace

structure Delta where
  base : Rat
  slope : Rat
  deriving DecidableEq, Repr

namespace Delta

def zero : Delta := ⟨0, 0⟩

/-- a rational, without an infinitesimal part -/
def ofRat (q : Rat) : Delta := ⟨q, 0⟩

def add (a b : Delta) : Delta := ⟨a.base + b.base, a.slope + b.slope⟩

def sub (a b : Delta) : Delta := ⟨a.base - b.base, a.slope - b.slope⟩

def neg (a : Delta) : Delta := ⟨-a.base, -a.slope⟩

/-- the product with a rational; a product of two infinitesimals would leave the type -/
def scale (k : Rat) (a : Delta) : Delta := ⟨a.base * k, a.slope * k⟩

/-- the quotient by a rational other than zero -/
def unscale (k : Rat) (a : Delta) : Delta := ⟨a.base / k, a.slope / k⟩

/-- the same as `unscale`, refusing the divisor zero -/
def divide (a : Delta) (k : Rat) : Option Delta := if k = 0 then none else some (a.unscale k)

instance : Add Delta := ⟨add⟩
instance : Sub Delta := ⟨sub⟩
instance : Neg Delta := ⟨neg⟩

/-- the base decides, and between equal bases the slope -/
instance : LT Delta := ⟨fun a b => a.base < b.base ∨ (a.base = b.base ∧ a.slope < b.slope)⟩

instance : LE Delta := ⟨fun a b => a < b ∨ a = b⟩

instance (a b : Delta) : Decidable (a < b) :=
  inferInstanceAs (Decidable (a.base < b.base ∨ (a.base = b.base ∧ a.slope < b.slope)))

instance (a b : Delta) : Decidable (a ≤ b) := inferInstanceAs (Decidable (a < b ∨ a = b))

/-- the value when ε is `d` -/
def valueAt (a : Delta) (d : Rat) : Rat := a.base + d * a.slope

theorem valueAt_add (a b : Delta) (d : Rat) : (a + b).valueAt d = a.valueAt d + b.valueAt d := by
  show a.base + b.base + d * (a.slope + b.slope) = a.base + d * a.slope + (b.base + d * b.slope)
  grind

theorem valueAt_sub (a b : Delta) (d : Rat) : (a - b).valueAt d = a.valueAt d - b.valueAt d := by
  show a.base - b.base + d * (a.slope - b.slope) = a.base + d * a.slope - (b.base + d * b.slope)
  grind

theorem valueAt_neg (a : Delta) (d : Rat) : (-a).valueAt d = -a.valueAt d := by
  show -a.base + d * -a.slope = -(a.base + d * a.slope)
  grind

theorem valueAt_scale (k : Rat) (a : Delta) (d : Rat) : (a.scale k).valueAt d = k * a.valueAt d := by
  simp only [valueAt, scale]
  grind

/-- a number without infinitesimal part is written as the rational it is -/
def text (a : Delta) : String :=
  if a.slope = 0 then Text.fraction a.base
  else "(" ++ Text.fraction a.base ++ ", " ++ Text.fraction a.slope ++ "ε)"

end Delta

end Halfspace
