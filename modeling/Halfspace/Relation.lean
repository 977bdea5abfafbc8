/-
The five relations between a left side and a right side.
-/
import Halfspace.Fault

namespace Halfspace

inductive Relation where
  | le
  | lt
  | ge
  | gt
  | eq
  deriving DecidableEq, Repr

namespace Relation

def symbol : Relation → String
  | le => "<="
  | lt => "<"
  | ge => ">="
  | gt => ">"
  | eq => "="

/-- two capital letters -/
def code : Relation → String
  | le => "LE"
  | lt => "LT"
  | ge => "GE"
  | gt => "GT"
  | eq => "EQ"

def all : List Relation := [le, lt, ge, gt, eq]

/-- the relation that a symbol stands for -/
def read (word : String) : Except Fault Relation :=
  match all.find? (·.symbol = word) with
  | some r => .ok r
  | none => .error (.badRelation word)

def isStrict : Relation → Bool
  | lt | gt => true
  | _ => false

/-- whether the left side is bounded from above, an equality not counted -/
def isUpper : Relation → Bool
  | le | lt => true
  | _ => false

/-- whether the left side is bounded from below, an equality not counted -/
def isLow : Relation → Bool
  | ge | gt => true
  | _ => false

/-- the relation after both sides are multiplied by a negative number -/
def flip : Relation → Relation
  | le => ge
  | lt => gt
  | ge => le
  | gt => lt
  | eq => eq

/-- the relation without its strictness -/
def relaxed : Relation → Relation
  | lt => le
  | gt => ge
  | r => r

/-- whether two numbers stand in the relation -/
def holds (r : Relation) (left right : Rat) : Bool :=
  match r with
  | le => left ≤ right
  | lt => left < right
  | ge => right ≤ left
  | gt => right < left
  | eq => left = right

@[simp] theorem flip_flip (r : Relation) : r.flip.flip = r := by cases r <;> rfl

@[simp] theorem isStrict_flip (r : Relation) : r.flip.isStrict = r.isStrict := by cases r <;> rfl

@[simp] theorem isUpper_flip (r : Relation) : r.flip.isUpper = r.isLow := by cases r <;> rfl

@[simp] theorem isLow_flip (r : Relation) : r.flip.isLow = r.isUpper := by cases r <;> rfl

/-- flipping exchanges the two sides -/
theorem holds_flip (r : Relation) (a b : Rat) : r.flip.holds a b = r.holds b a := by
  cases r <;> simp [flip, holds, eq_comm]

end Relation

end Halfspace
