/-
The register of variables.

Variables are numbered from zero in the order in which they are added. A name may be given more than once; looked up
by name, the latest variable answers. A variable is active once a constraint uses it. Whatever a caller marks counts
as active, be it a variable or not; marked words and ids cannot be listed together, for they have no common order.
-/
import Halfspace.Fault

namespace Halfspace

structure Variables where
  names : List String := []
  /-- active ids in increasing order -/
  active : List Int := []
  /-- words marked active, in the order of marking -/
  activeWords : List String := []
  deriving DecidableEq, Repr

namespace Variables

def count (v : Variables) : Nat := v.names.length

/-- add a variable; its id is the count before -/
def add (v : Variables) (name : String) : Variables := { v with names := v.names ++ [name] }

/-- the position of a variable that was added -/
def position? (v : Variables) : VarRef → Option Nat
  | .id n => if 0 ≤ n ∧ n < v.count then some n.toNat else none
  | .word _ => none

def contains (v : Variables) (x : VarRef) : Bool := (v.position? x).isSome

def name (v : Variables) (x : VarRef) : Except Fault String :=
  match (v.position? x).bind (v.names[·]?) with
  | some s => .ok s
  | none => .error (.unknownVariable x)

/-- the latest variable of a name, counting ids from `next` -/
def latest (name : String) (next : Nat) : List String → Option Nat
  | [] => none
  | n :: rest =>
    match latest name (next + 1) rest with
    | some i => some i
    | none => if n = name then some next else none

/-- the latest variable of a name -/
def index? (v : Variables) (name : String) : Option Nat := latest name 0 v.names

/-- put an id into an increasing list, once -/
def insertId (x : Int) : List Int → List Int
  | [] => [x]
  | y :: rest => if x < y then x :: y :: rest else if x = y then y :: rest else y :: insertId x rest

def markActive (v : Variables) (x : Int) : Variables := { v with active := insertId x v.active }

def isActive (v : Variables) (x : Int) : Bool := v.active.contains x

/-- mark what a caller names -/
def mark (v : Variables) : VarRef → Variables
  | .id x => v.markActive x
  | .word s => if v.activeWords.contains s then v else { v with activeWords := v.activeWords ++ [s] }

/-- whether what a caller names was marked -/
def isMarked (v : Variables) : VarRef → Bool
  | .id x => v.isActive x
  | .word s => v.activeWords.contains s

/-- everything marked, ids in increasing order -/
def marked (v : Variables) : Except Fault (List VarRef) :=
  match v.active, v.activeWords with
  | ids, [] => .ok (ids.map .id)
  | [], words => .ok (words.map .word)
  | _, _ => .error .mixedOperands

end Variables

end Halfspace
