/-
Positions in lists as callers give them: counted from zero at the front or, when negative, from minus one at the
back. A position outside the list is a fault.
-/
import Halfspace.Fault

namespace Halfspace

/-- the position from the front of a list of length `n` -/
def fromFront? (n : Nat) (i : Int) : Option Nat :=
  let k := if i < 0 then i + n else i
  if 0 ≤ k ∧ k < n then some k.toNat else none

/-- the element at a position, if the list reaches so far -/
def fetch? {α : Type} (xs : List α) (i : Int) : Option α := (fromFront? xs.length i).bind (xs[·]?)

/-- the element at a position -/
def fetch {α : Type} (xs : List α) (i : Int) : Except Fault α :=
  match fetch? xs i with
  | some a => .ok a
  | none => .error .outOfRange

/-- a list with another element at a position; the same list when it does not reach so far -/
def replaceAt {α : Type} (xs : List α) (i : Int) (a : α) : List α :=
  match fromFront? xs.length i with
  | some k => xs.set k a
  | none => xs

/-- a natural number counts from the front -/
theorem fromFront?_natCast {n i : Nat} (h : i < n) : fromFront? n i = some i := by
  have hi : ¬((i : Int) < 0) := by omega
  have hlt : (0 : Int) ≤ i ∧ (i : Int) < n := by omega
  simp [fromFront?, hi, hlt]

@[simp] theorem length_replaceAt {α : Type} (xs : List α) (i : Int) (a : α) :
    (replaceAt xs i a).length = xs.length := by
  unfold replaceAt
  split <;> simp

theorem fetch_natCast {α : Type} {xs : List α} {i : Nat} {a : α} (h : xs[i]? = some a) : fetch xs i = .ok a := by
  have hi : i < xs.length := (List.getElem?_eq_some_iff.1 h).1
  simp [fetch, fetch?, fromFront?_natCast hi, h]

end Halfspace
