/-
Registration as a sequence of writes.

`addConstraint` makes a new solver or none at all. Here the same is done to one solver in place: the arguments are read
in their order, and then one part after another is written. An `Edit` that fails keeps what was written before it
failed, so that it matters that nothing is written before everything is read, and that no write depends on something
that may be missing.
-/
import Halfspace.Solver.State

namespace Halfspace.Solver

/-- a computation that changes a solver in place; when it fails, the changes made so far stay -/
abbrev Edit := EStateM Fault Solver

namespace Edit

/-! ## Reading -/

/-- read terms one after another -/
def readTerms (terms : List (Numeral × VarRef)) : Edit LinearForm :=
  terms.mapM fun t => do MonadExcept.ofExcept (readTerm (← get).vars (← get).settings.digitLimit t)

/-- read a constraint: its relation, its terms and its right side, in this order -/
def read (terms : List (Numeral × VarRef)) (relation : String) (rhs : Numeral) : Edit Constraint := do
  let relation ← MonadExcept.ofExcept (Relation.read relation)
  let terms ← readTerms terms
  let rhs ← MonadExcept.ofExcept (rhs.value (← get).settings.digitLimit)
  return ⟨(← get).constraints.length, terms, relation, rhs⟩

/-! ## Writing -/

/-- append a constraint -/
def append (c : Constraint) : Edit Unit := modify fun s => { s with constraints := s.constraints ++ [c] }

/-- append a restated constraint -/
def appendRestated (r : Restated) : Edit Unit := modify fun s => { s with restated := s.restated ++ [r] }

/-- store the side of a form, and give every side an interval -/
def place (form : LinearForm) : Edit FormStore.Placed := do
  let placed := (← get).store.place form
  modify fun s => { s with store := placed.store, intervals := coverSides placed.store s.intervals }
  return placed

/-- note that a constraint without variables is false, if it is the first contradiction -/
def noteFalse (c : Constraint) : Edit Unit :=
  modify fun s =>
    { s with falseConstraint := if !c.relation.holds 0 c.rhs && !s.clashed then some c.id else s.falseConstraint }

/-- make the variables of a stored side active -/
def activate (side : Nat) : Edit Unit :=
  modify fun s => { s with vars := (s.store.sides.getD side []).foldl (fun v t => v.markActive t.var) s.vars }

/-- tighten the interval of a side, and note that it is empty, if that is the first contradiction -/
def confine (side : Nat) (r : Restated) : Edit Unit := do
  let interval := (← MonadExcept.ofExcept (fetch (← get).intervals side)).tighten r
  modify fun s => { s with intervals := s.intervals.set side interval }
  modify fun s => { s with emptySide := if interval.isEmpty && !s.clashed then some side else s.emptySide }

/-- write what a constraint says about its side, if it has one -/
def record (c : Constraint) (placed : FormStore.Placed) : Edit Unit :=
  match placed.side with
  | none => do
    appendRestated c.degenerate
    noteFalse c
  | some side => do
    activate side
    let r ← MonadExcept.ofExcept (c.restate? (some side) placed.scale)
    appendRestated r
    confine side r

/-- register a constraint as a caller gives it, and tell its id -/
def addConstraint (terms : List (Numeral × VarRef)) (relation : String) (rhs : Numeral) : Edit Nat := do
  let c ← read terms relation rhs
  append c
  record c (← place c.terms)
  modify forget
  return c.id

end Edit

end Halfspace.Solver
