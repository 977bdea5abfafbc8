/-
The interval to which constraints confine one left side.

Each end carries its number, whether it is excluded, and the constraint that supplied it, its witness. `tighten`
folds one restated constraint into an interval: the larger low end and the smaller upper end win, on equal numbers
the strict one, and on a tie the one that came first.
-/
import Halfspace.Constraint

namespace Halfspace

/-- one end of an interval -/
structure Limit where
  value : Rat
  strict : Bool
  witness : Nat
  deriving DecidableEq, Repr

structure Interval where
  low : Option Limit := none
  upper : Option Limit := none
  deriving DecidableEq, Repr

/-- which ends an interval has -/
inductive Shape where
  | free
  | lowOnly
  | upperOnly
  | boxed
  | fixed
  deriving DecidableEq, Repr

def Shape.word : Shape → String
  | free => "free"
  | lowOnly => "low_bound"
  | upperOnly => "upper_bound"
  | boxed => "boxed"
  | fixed => "fixed"

namespace Interval

/-- the whole line -/
def whole : Interval := {}

/-! ## Meaning -/

/-- whether a number is inside a low end -/
def insideLow (l : Limit) (q : Rat) : Bool := if l.strict then l.value < q else l.value ≤ q

/-- whether a number is inside an upper end -/
def insideUpper (u : Limit) (q : Rat) : Bool := if u.strict then q < u.value else q ≤ u.value

def contains (i : Interval) (q : Rat) : Bool :=
  i.low.all (insideLow · q) && i.upper.all (insideUpper · q)

/-- whether the interval is a single number -/
def isFixed (i : Interval) : Bool :=
  match i.low, i.upper with
  | some l, some u => l.value = u.value && !l.strict && !u.strict
  | _, _ => false

/-- whether no number is inside -/
def isEmpty (i : Interval) : Bool :=
  match i.low, i.upper with
  | some l, some u => u.value < l.value || (l.value = u.value && (l.strict || u.strict))
  | _, _ => false

def shape (i : Interval) : Shape :=
  match i.low, i.upper with
  | some _, some _ => if i.isFixed then .fixed else .boxed
  | some _, none => .lowOnly
  | none, some _ => .upperOnly
  | none, none => .free

/-! ## Tightening -/

/-- whether a low end excludes more than the present one -/
def raisesLow (i : Interval) (l : Limit) : Bool :=
  match i.low with
  | none => true
  | some c => c.value < l.value || (l.value = c.value && l.strict && !c.strict)

/-- whether an upper end excludes more than the present one -/
def lowersUpper (i : Interval) (u : Limit) : Bool :=
  match i.upper with
  | none => true
  | some c => u.value < c.value || (u.value = c.value && u.strict && !c.strict)

def tightenLow (i : Interval) (l : Limit) : Interval := if i.raisesLow l then { i with low := some l } else i

def tightenUpper (i : Interval) (u : Limit) : Interval :=
  if i.lowersUpper u then { i with upper := some u } else i

/-- fold one restated constraint into the interval of its left side -/
def tighten (i : Interval) (r : Restated) : Interval :=
  match r.relation with
  | .eq => (i.tightenLow ⟨r.rhs, false, r.constraint⟩).tightenUpper ⟨r.rhs, false, r.constraint⟩
  | .ge => i.tightenLow ⟨r.rhs, false, r.constraint⟩
  | .gt => i.tightenLow ⟨r.rhs, true, r.constraint⟩
  | .le => i.tightenUpper ⟨r.rhs, false, r.constraint⟩
  | .lt => i.tightenUpper ⟨r.rhs, true, r.constraint⟩

/-! ## Text -/

/-- square brackets include an end, round ones exclude it -/
def text (i : Interval) : String :=
  let left := match i.low with
    | none => "(-inf"
    | some l => (if l.strict then "(" else "[") ++ Text.fraction l.value
  let right := match i.upper with
    | none => "+inf)"
    | some u => Text.fraction u.value ++ (if u.strict then ")" else "]")
  left ++ ", " ++ right

end Interval

end Halfspace
