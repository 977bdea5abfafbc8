/-
Linear forms `Σ c·x`, as lists of terms.

A list of terms may be in any order, repeat a variable and hold zero coefficients. `collect` sums the coefficients
of each variable, drops those that cancel and sorts by variable. `normalize` divides by the leading coefficient, so
that two forms have the same normal form exactly when each is a nonzero multiple of the other; the zero form has the
empty one. `eval` is the meaning of a list of terms under an assignment.
-/
import Halfspace.DigitLimit

namespace Halfspace

/-- a coefficient times a variable; variables are numbered -/
structure Term where
  coef : Rat
  var : Int
  deriving DecidableEq, Repr

/-- a value for every variable -/
abbrev Assignment := Int → Rat

/-- the assignment with the listed values and zero elsewhere; of two values for a variable the later one counts -/
def Assignment.ofList (values : List (Int × Rat)) : Assignment := fun x =>
  ((values.reverse.find? fun p => p.1 = x).map (·.2)).getD 0

abbrev LinearForm := List Term

namespace LinearForm

/-- the value of a form -/
def eval (v : Assignment) : LinearForm → Rat
  | [] => 0
  | t :: rest => t.coef * v t.var + eval v rest

/-- every coefficient times `k` -/
def scale (k : Rat) (form : LinearForm) : LinearForm := form.map fun t => ⟨k * t.coef, t.var⟩

/-! ## Collecting terms -/

/-- add a term to a form that is sorted by variable -/
def addTerm (t : Term) : LinearForm → LinearForm
  | [] => [t]
  | u :: rest =>
    if t.var < u.var then t :: u :: rest
    else if t.var = u.var then ⟨t.coef + u.coef, u.var⟩ :: rest
    else u :: addTerm t rest

/-- the sum of the coefficients of each variable, by variable -/
def sums : LinearForm → LinearForm
  | [] => []
  | t :: rest => addTerm t (sums rest)

/-- the same form with every variable once, none with coefficient zero, sorted by variable -/
def collect (form : LinearForm) : LinearForm := (sums form).filter fun t => t.coef ≠ 0

/-! ### Meaning is kept -/

theorem eval_scale (v : Assignment) (k : Rat) (form : LinearForm) : eval v (scale k form) = k * eval v form := by
  induction form with
  | nil => simp [scale, eval]
  | cons t rest ih =>
    simp only [scale, List.map_cons, eval] at ih ⊢
    rw [ih]
    grind

theorem eval_append (v : Assignment) (a b : LinearForm) : eval v (a ++ b) = eval v a + eval v b := by
  induction a with
  | nil => simp only [List.nil_append, eval]; grind
  | cons t rest ih =>
    simp only [List.cons_append, eval, ih]
    grind

theorem eval_addTerm (v : Assignment) (t : Term) (form : LinearForm) :
    eval v (addTerm t form) = t.coef * v t.var + eval v form := by
  induction form with
  | nil => rfl
  | cons u rest ih =>
    simp only [addTerm]
    split
    · rfl
    · split
      · next h => simp only [eval, h]; grind
      · simp only [eval, ih]; grind

theorem eval_sums (v : Assignment) (form : LinearForm) : eval v (sums form) = eval v form := by
  induction form with
  | nil => rfl
  | cons t rest ih => simp only [sums, eval_addTerm, ih, eval]

theorem eval_filter_ne_zero (v : Assignment) (form : LinearForm) :
    eval v (form.filter fun t => t.coef ≠ 0) = eval v form := by
  induction form with
  | nil => rfl
  | cons t rest ih =>
    by_cases h : t.coef = 0
    · simp only [ne_eq, decide_not] at ih
      simp only [ne_eq, decide_not, List.filter_cons, h, decide_true, Bool.not_true, Bool.false_eq_true,
        if_false, ih, eval]
      grind
    · simp only [ne_eq, decide_not] at ih
      simp only [ne_eq, decide_not, List.filter_cons, h, decide_false, Bool.not_false, if_true, eval, ih]

theorem eval_collect (v : Assignment) (form : LinearForm) : eval v (collect form) = eval v form := by
  rw [collect, eval_filter_ne_zero, eval_sums]

/-! ## Normal form -/

/-- a form as `scale` times a form with leading coefficient one -/
structure Normal where
  form : LinearForm
  scale : Rat
  deriving DecidableEq, Repr

def normalize (form : LinearForm) : Normal :=
  match collect form with
  | [] => ⟨[], 1⟩
  | t :: rest => ⟨(t :: rest).map fun u => ⟨u.coef / t.coef, u.var⟩, t.coef⟩

/-! ## Text -/

/-- a term as `c*name`, a coefficient one left out -/
def termText (t : Term) (name : String) : String :=
  if t.coef = 1 then name else Text.fraction t.coef ++ "*" ++ name

/-- the terms in order, joined by plus signs -/
def text (name : Int → Except Fault String) (form : LinearForm) (limit : DigitLimit := none) :
    Except Fault String := do
  let parts ← form.mapM fun t => do
    let name ← name t.var
    if t.coef ≠ 1 then limit.checkNumber t.coef
    return termText t name
  return if parts.isEmpty then "0" else " + ".intercalate parts

end LinearForm

end Halfspace
