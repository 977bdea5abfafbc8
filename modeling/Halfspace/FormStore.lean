/-
The store of left sides.

Linear forms are kept once up to a nonzero factor: a side is the normal form shared by all its multiples, and its
index is its place in the order of first use. Sides are never changed or removed.
-/
import Halfspace.LinearForm

namespace Halfspace

structure FormStore where
  sides : List LinearForm := []
  deriving DecidableEq, Repr

/-- whether a normal form is a single variable -/
def LinearForm.isTrivial (form : LinearForm) : Bool := form.length = 1

/-- the variable of a trivial normal form -/
def LinearForm.soleVar? : LinearForm → Option Int
  | [t] => some t.var
  | _ => none

namespace FormStore

def size (s : FormStore) : Nat := s.sides.length

/-- the index of the side of a form, if a multiple of it was stored; the zero form has none -/
def find? (s : FormStore) (form : LinearForm) : Option Nat :=
  match form.normalize.form with
  | [] => none
  | key => s.sides.findIdx? (· = key)

/-- what became of a form: the store, the index of its side, and the factor by which it exceeds the side -/
structure Placed where
  store : FormStore
  side : Option Nat
  scale : Rat

/-- the side of a form, stored if it is new; the zero form gets none -/
def place (s : FormStore) (form : LinearForm) : Placed :=
  let normal := form.normalize
  match s.find? form with
  | some i => ⟨s, some i, normal.scale⟩
  | none =>
    if normal.form.isEmpty then ⟨s, none, normal.scale⟩
    else ⟨⟨s.sides ++ [normal.form]⟩, some s.size, normal.scale⟩

/-- the side that is variable `x` itself -/
def placeVar (s : FormStore) (x : Int) : Placed := s.place [⟨1, x⟩]

end FormStore

end Halfspace
