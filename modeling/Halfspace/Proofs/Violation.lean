/-
How far values are from satisfying constraints.

The measure is taken on restated constraints, which may be flipped and rescaled, and with values that are given by name. A
value reaches the latest variable of its name and no other, so that values by name are an assignment
(`Solver.valuesByName_eq`). Two numbers miss a relation by a distance that is multiplied with them, whichever
way they are turned (`Relation.distance_turned`), and that vanishes where the relation holds without its strictness
(`Relation.distance_eq_zero_iff`). So a restated constraint is violated as the constraint is, in units of its scale
(`Restates.violation_eq`).
- `violation_measured`: the measure of each constraint, and of all of them.
-/
import Halfspace.Proofs.Alignment
import Halfspace.Proofs.Names
import Halfspace.Proofs.RoundingOrder

namespace Halfspace

/-! ## Distances -/

namespace Relation

/-- by how much two numbers miss a relation, strictness left aside -/
def distance (r : Relation) (left right : Rat) : Rat :=
  match r with
  | le | lt => max 0 (left - right)
  | ge | gt => max 0 (right - left)
  | eq => |left - right|

theorem distance_nonneg (r : Relation) (a b : Rat) : 0 ≤ r.distance a b := by
  cases r <;> simp [distance]

theorem distance_eq_zero_iff {r : Relation} {a b : Rat} : r.distance a b = 0 ↔ r.relaxed.holds a b = true := by
  cases r <;> simp [distance, relaxed, holds, sub_eq_zero]

theorem distance_flip (r : Relation) (a b : Rat) : r.flip.distance a b = r.distance b a := by
  cases r <;> simp [distance, flip, abs_sub_comm]

theorem distance_neg (r : Relation) (a b : Rat) : r.distance (-a) (-b) = r.distance b a := by
  have hleft : -a - -b = b - a := by ring
  have hright : -b - -a = a - b := by ring
  cases r <;> simp only [distance, hleft, hright]

theorem distance_mul {k : Rat} (hk : 0 ≤ k) (r : Relation) (a b : Rat) :
    r.distance (k * a) (k * b) = k * r.distance a b := by
  cases r <;> simp only [distance, ← mul_sub, mul_max_of_nonneg _ _ hk, mul_zero, abs_mul, abs_of_nonneg hk]

theorem distance_turned (k : Rat) (r : Relation) (a b : Rat) :
    r.distance (k * a) (k * b) = |k| * (r.turned k).distance a b := by
  unfold turned
  split_ifs with hneg
  · have hopposite : ∀ c : Rat, k * c = -(-k * c) := fun c => by ring
    rw [hopposite a, hopposite b, distance_neg, distance_mul (neg_nonneg.2 hneg.le), distance_flip, abs_of_neg hneg]
  · rw [distance_mul (not_lt.1 hneg), abs_of_nonneg (not_lt.1 hneg)]

end Relation

theorem ite_neg_eq_max (q : Rat) : (if q < 0 then 0 else q) = max 0 q := by
  split_ifs with h
  · exact (max_eq_left h.le).symm
  · exact (max_eq_right (not_lt.1 h)).symm

theorem Constraint.violation_eq (c : Constraint) (v : Assignment) :
    c.violation v = c.relation.distance (c.terms.eval v) c.rhs := by
  have hbelow : ∀ q : Rat, (if 0 < q then 0 else -q) = max 0 (-q) := by
    intro q
    rw [← ite_neg_eq_max]
    simp only [neg_lt_zero]
  unfold violation Relation.distance
  dsimp only
  cases c.relation <;> simp only [ite_neg_eq_max, hbelow, Rounding.magnitude_eq]
  all_goals rw [neg_sub]

theorem Restated.violation_eq (r : Restated) (value : Rat) : r.violation value = r.relation.distance value r.rhs := by
  unfold violation Relation.distance
  cases r.relation <;> simp only [ite_neg_eq_max, Rounding.magnitude_eq]

/-- **Restated constraints.** A restated constraint is violated as the constraint is, in units of its scale. -/
theorem Restates.violation_eq {store : FormStore} {c : Constraint} {r : Restated} (h : Restates store c r)
    (v : Assignment) : r.scale ≠ 0 ∧ r.violation (store.valueOf v r.side) = c.violation v / |r.scale| := by
  rw [Constraint.violation_eq, Restated.violation_eq]
  cases h with
  | degenerate cancels =>
    refine ⟨one_ne_zero, ?_⟩
    show c.relation.distance 0 c.rhs = c.relation.distance (c.terms.eval v) c.rhs / |1|
    rw [cancels, abs_one, div_one]
  | @about i side scale stored nonzero multiple =>
    refine ⟨nonzero, ?_⟩
    have hturned : (if 0 < scale then c.relation else c.relation.flip) = c.relation.turned scale := by
      unfold Relation.turned
      rcases nonzero.lt_or_gt with hneg | hpos
      · rw [if_neg hneg.not_gt, if_pos hneg]
      · rw [if_pos hpos, if_neg hpos.not_gt]
    have hrhs : c.rhs = scale * (c.rhs / scale) := (mul_div_cancel₀ _ nonzero).symm
    show (if 0 < scale then c.relation else c.relation.flip).distance (store.valueOf v (some i)) (c.rhs / scale) =
      c.relation.distance (c.terms.eval v) c.rhs / |scale|
    rw [hturned, FormStore.valueOf_some stored, multiple, eq_div_iff (abs_pos.2 nonzero).ne', mul_comm,
      ← Relation.distance_turned, ← hrhs]

/-! ## The measure -/

def numerals (values : List (String × Rat)) : List (String × Numeral) := values.map fun e => (e.1, .number e.2)

namespace Solver

variable {s : Solver} {settings : Settings}

theorem knownValues_numerals (vars : Variables) (limit : DigitLimit) (values : List (String × Rat)) :
    knownValues vars limit (numerals values) = .ok (vars.known values) := by
  induction values with
  | nil => rfl
  | cons e rest ih =>
    unfold numerals at ih ⊢
    rw [List.map_cons, knownValues, ih]
    unfold Variables.known
    rw [List.filterMap_cons]
    dsimp only
    cases vars.index? e.1 <;> rfl

theorem valuesByName_eq (s : Solver) (values : List (String × Rat)) :
    s.valuesByName (numerals values) = .ok (s.vars.valuesOf values) := by
  rw [valuesByName, knownValues_numerals, ← Variables.ofList_known]
  rfl

/-- **One constraint.** Its restated form is measured in units of the scale. -/
theorem violationOf_eq (h : Registered s) {k : Nat} {c : Constraint} {r : Restated} (he : s.Entry k c r)
    (values : List (String × Rat)) :
    s.violationOf r (numerals values) = .ok (c.violation (s.vars.valuesOf values) / |r.scale|) := by
  obtain ⟨-, hrestates⟩ := h.restates_of_entry he
  rw [← (hrestates.violation_eq _).2]
  unfold violationOf
  cases hside : r.side with
  | none => rfl
  | some i =>
    have hstored := FormStore.getElem?_eq_getD (hrestates.side_lt hside)
    have hvalue : s.formValue i (numerals values) = .ok (s.store.valueOf (s.vars.valuesOf values) (some i)) := by
      unfold formValue
      rw [fetch_natCast hstored, valuesByName_eq]
      rfl
    dsimp only
    rw [hvalue]
    rfl

theorem Registered.violation_eq_zero_iff (h : Registered s) {k : Nat} {c : Constraint} {r : Restated}
    (he : s.Entry k c r) (v : Assignment) :
    r.violation (s.store.valueOf v r.side) = 0 ↔ c.relaxed.holds v = true := by
  obtain ⟨hscale, hviolation⟩ := (h.restates_of_entry he).2.violation_eq v
  rw [hviolation, div_eq_zero_iff, or_iff_left (abs_pos.2 hscale).ne', Constraint.violation_eq]
  exact Relation.distance_eq_zero_iff

theorem foldl_add_eq_zero_iff {α : Type} {xs : List α} {f : α → Rat} (hf : ∀ x ∈ xs, 0 ≤ f x) :
    xs.foldl (fun sum x => sum + f x) 0 = 0 ↔ ∀ x ∈ xs, f x = 0 := by
  rw [← List.foldl_map, ← List.sum_eq_foldl]
  constructor
  · intro hsum x hx
    exact List.all_zero_of_le_zero_le_of_sum_eq_zero (List.forall_mem_map.2 hf) hsum (List.mem_map_of_mem hx)
  · intro hall
    exact List.sum_eq_zero (List.forall_mem_map.2 hall)

/-- **All constraints.** The sum vanishes exactly where every constraint holds without its strictness. -/
theorem totalViolation_eq (h : Registered s) (values : List (String × Rat)) : ∃ total,
    s.totalViolation (numerals values) = .ok total ∧
      (total = 0 ↔ ∀ c ∈ s.constraints, c.relaxed.holds (s.vars.valuesOf values) = true) := by
  obtain ⟨v, hv⟩ : ∃ v, v = s.vars.valuesOf values := ⟨_, rfl⟩
  refine ⟨s.restated.foldl (fun sum r => sum + r.violation (s.store.valueOf v r.side)) 0, ?_, ?_⟩
  · apply foldlM_ok
    intro sum r hr
    obtain ⟨k, c, hc, hk, -, hrestates⟩ := h.exists_constraint hr
    rw [violationOf_eq h ⟨hc, hk⟩, ← hv, (hrestates.violation_eq v).2]
    rfl
  · rw [← hv, foldl_add_eq_zero_iff fun r _ => by
      rw [Restated.violation_eq]
      exact Relation.distance_nonneg _ _ _]
    constructor
    · intro hzero c hc
      obtain ⟨k, hk⟩ := List.mem_iff_getElem?.1 hc
      obtain ⟨r, hr, -, -⟩ := h.exists_restated hk
      exact (h.violation_eq_zero_iff ⟨hk, hr⟩ v).1 (hzero r (List.mem_of_getElem? hr))
    · intro hall r hr
      obtain ⟨k, c, hc, hk, -, -⟩ := h.exists_constraint hr
      exact (h.violation_eq_zero_iff ⟨hc, hk⟩ v).2 (hall c (List.mem_of_getElem? hc))

/-- **The measure is exact.** In every reachable state and for all values by name: the measure of each constraint is its
violation under these values, which is not negative, in units of its scale; and the measure of all constraints is zero
exactly if every constraint holds without its strictness. -/
theorem violation_measured (h : Reachable settings s) (values : List (String × Rat)) :
    (∀ (k : Nat) (c : Constraint), s.constraints[k]? = some c → ∃ r, s.restated[k]? = some r ∧ r.scale ≠ 0 ∧
      0 ≤ c.violation (s.vars.valuesOf values) ∧
      s.violationOf r (numerals values) = .ok (c.violation (s.vars.valuesOf values) / |r.scale|) ∧
      s.violation k (numerals values) = .ok (c.violation (s.vars.valuesOf values) / |r.scale|)) ∧
    ∃ total, s.totalViolation (numerals values) = .ok total ∧
      (total = 0 ↔ ∀ c ∈ s.constraints, c.relaxed.holds (s.vars.valuesOf values) = true) := by
  have hregistered := (Rightful.of_reachable h).registered
  refine ⟨?_, totalViolation_eq hregistered values⟩
  intro k c hc
  obtain ⟨r, hr, -, hrestates⟩ := hregistered.exists_restated hc
  have hmeasure := violationOf_eq hregistered ⟨hc, hr⟩ values
  refine ⟨r, hr, (hrestates.violation_eq (s.vars.valuesOf values)).1, ?_, hmeasure, ?_⟩
  · rw [Constraint.violation_eq]
    exact Relation.distance_nonneg _ _ _
  · rw [violation, restatement, fetch_natCast hr]
    exact hmeasure

/-- two variables named `x` and one named `y`: `-2x + y > 1` on the later `x`, `x - x ≤ -3`, `3x + 3y = 1` on the earlier
`x`, and `y < 1/2` -/
def namesakes : List Call :=
  [.addVar "x", .addVar "x", .addVar "y",
    .addConstraint [(.number (-2), .id 1), (.number 1, .id 2)] ">" (.number 1),
    .addConstraint [(.number 1, .id 0), (.number (-1), .id 0)] "<=" (.number (-3)),
    .addConstraint [(.number 3, .id 0), (.number 3, .id 2)] "=" (.number 1),
    .addConstraint [(.number 1, .id 2)] "<" (.text "1/2")]

/-- values by name, one of them under a name that is no variable's -/
def addressed : List (String × Rat) := [("x", 5), ("z", 9), ("y", 1/2)]

/-- the earlier `x` is zero, a flipped constraint is measured in units of its scale, a false one without coefficients as it
stands, and one that fails by its strictness alone counts for nothing -/
theorem namesakes_are_measured :
    (∃ r, ((new {}).runCalls namesakes).restated[0]? = some r ∧
      ((new {}).runCalls namesakes).violation (0 : Nat) (numerals addressed) =
        .ok (Constraint.violation ⟨0, [⟨-2, 1⟩, ⟨1, 2⟩], .gt, 1⟩
          (((new {}).runCalls namesakes).vars.valuesOf addressed) / |r.scale|)) ∧
    [0, 1, 2, 3].map (((new {}).runCalls namesakes).violation · (numerals addressed)) =
      [.ok (21/4), .ok 3, .ok (1/6), .ok 0] ∧
    ∃ total, ((new {}).runCalls namesakes).totalViolation (numerals addressed) = .ok total ∧
      (total = 0 ↔ ∀ c ∈ ((new {}).runCalls namesakes).constraints,
        c.relaxed.holds (((new {}).runCalls namesakes).vars.valuesOf addressed) = true) := by
  obtain ⟨hone, htotal⟩ := violation_measured (reachable_runCalls {} namesakes) addressed
  obtain ⟨r, hr, -, -, -, hmeasure⟩ := hone 0 ⟨0, [⟨-2, 1⟩, ⟨1, 2⟩], .gt, 1⟩ (by decide +kernel)
  exact ⟨⟨r, hr, hmeasure⟩, by decide +kernel, htotal⟩

end Solver

end Halfspace
