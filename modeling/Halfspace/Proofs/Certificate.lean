/-
Soundness of the refutation check: weighted constraints that pass `Refutation.isRefutation` have no common model.

Nothing is assumed about where the weights come from; constraints may repeat, and their terms may repeat variables
and hold zeros. Suppose an assignment satisfies all of them. A weighted constraint then relates its weighted left
value to its weighted right side by the relation that points the way of its weight (`oriented_holds`). The check lets
these point one way only, so they add up to the aggregate relation between the two sums (`aggregate_holds`). The left
sums cancel, and the aggregate relation of zero to the right sum is what the check found to be false.
- `isRefutation_sound`: the statement about weighted constraints;
- `isCorrect_sound`: the statement about evidence that names constraints by their positions.
-/
import Halfspace.Proofs.NormalForm
import Halfspace.Refutation
import Mathlib.Algebra.Order.BigOperators.Group.List

namespace Halfspace

theorem Relation.holds_mul_of_pos {r : Relation} {k a b : Rat} (hk : 0 < k) :
    r.holds (k * a) (k * b) = r.holds a b := by
  cases r <;> simp [Relation.holds, hk, hk.ne']

theorem Relation.holds_mul_of_neg {r : Relation} {k a b : Rat} (hk : k < 0) :
    r.flip.holds (k * a) (k * b) = r.holds a b := by
  cases r <;> simp [Relation.flip, Relation.holds, hk, hk.ne]

/-- the relation after both sides are multiplied by a number other than zero -/
def Relation.turned (k : Rat) (r : Relation) : Relation := if k < 0 then r.flip else r

theorem Relation.isStrict_turned (k : Rat) (r : Relation) : (r.turned k).isStrict = r.isStrict := by
  unfold turned
  split_ifs
  · exact isStrict_flip r
  · rfl

theorem Relation.holds_turned {k : Rat} (hk : k ≠ 0) (r : Relation) (a b : Rat) :
    (r.turned k).holds (k * a) (k * b) = r.holds a b := by
  unfold turned
  split_ifs with hneg
  · exact holds_mul_of_neg hneg
  · exact holds_mul_of_pos (lt_of_le_of_ne (not_lt.1 hneg) hk.symm)

namespace Refutation

/-! ## Weighted values -/

def leftValue (v : Assignment) (w : Weighted) : Rat := w.weight * w.constraint.terms.eval v

def rightValue (w : Weighted) : Rat := w.weight * w.constraint.rhs

theorem eval_leftSum (v : Assignment) (ws : List Weighted) : (leftSum ws).eval v = (ws.map (leftValue v)).sum := by
  induction ws with
  | nil => rfl
  | cons w rest ih =>
    simp only [leftSum, List.flatMap_cons] at ih ⊢
    rw [LinearForm.eval_append, LinearForm.eval_scale, ih, List.map_cons, List.sum_cons]
    rfl

theorem rightSum_eq_sum (ws : List Weighted) : rightSum ws = (ws.map rightValue).sum := by
  induction ws with
  | nil => rfl
  | cons w rest ih =>
    simp only [rightSum, List.map_cons, List.sum_cons, ih]
    rfl

theorem leftCancels_iff (ws : List Weighted) : leftCancels ws = true ↔ ∀ v, (ws.map (leftValue v)).sum = 0 := by
  simp only [leftCancels, List.isEmpty_iff, LinearForm.collect_eq_nil_iff, eval_leftSum]

/-! ## One weighted constraint -/

theorem oriented_holds {v : Assignment} {w : Weighted} (h0 : w.weight ≠ 0) (h : w.constraint.holds v = true) :
    (oriented w).holds (leftValue v w) (rightValue w) = true := by
  unfold oriented
  split_ifs with hneg
  · exact (Relation.holds_mul_of_neg hneg).trans h
  · have hpos : 0 < w.weight := lt_of_le_of_ne (not_lt.1 hneg) h0.symm
    exact (Relation.holds_mul_of_pos hpos).trans h

/-! ## The sum -/

theorem le_of_not_isLow {r : Relation} {a b : Rat} (hr : r.isLow = false) (h : r.holds a b = true) :
    a ≤ b ∧ (r.isStrict = true → a < b) := by
  cases r <;> simp_all [Relation.isLow, Relation.isStrict, Relation.holds, le_of_lt]

theorem ge_of_not_isUpper {r : Relation} {a b : Rat} (hr : r.isUpper = false) (h : r.holds a b = true) :
    b ≤ a ∧ (r.isStrict = true → b < a) := by
  cases r <;> simp_all [Relation.isUpper, Relation.isStrict, Relation.holds, le_of_lt]

theorem eq_of_neither {r : Relation} {a b : Rat} (hu : r.isUpper = false) (hl : r.isLow = false)
    (h : r.holds a b = true) : a = b := by
  cases r <;> simp_all [Relation.isUpper, Relation.isLow, Relation.holds]

/-- constraints that all point upwards add up to one that does -/
theorem upper_holds {ws : List Weighted} {v : Assignment} (hupper : ∀ w ∈ ws, (oriented w).isLow = false)
    (hold : ∀ w ∈ ws, (oriented w).holds (leftValue v w) (rightValue w) = true) :
    (if ws.any fun w => (oriented w).isStrict then Relation.lt else .le).holds
      (ws.map (leftValue v)).sum (ws.map rightValue).sum = true := by
  have hle : ∀ w ∈ ws, leftValue v w ≤ rightValue w := fun w hw => (le_of_not_isLow (hupper w hw) (hold w hw)).1
  split_ifs with hstrict
  · obtain ⟨w, hw, hws⟩ := List.any_eq_true.1 hstrict
    have hlt := (le_of_not_isLow (hupper w hw) (hold w hw)).2 hws
    simpa [Relation.holds] using List.sum_lt_sum _ _ hle ⟨w, hw, hlt⟩
  · simpa [Relation.holds] using List.sum_le_sum hle

/-- constraints that all point downwards add up to one that does -/
theorem low_holds {ws : List Weighted} {v : Assignment} (hlow : ∀ w ∈ ws, (oriented w).isUpper = false)
    (hold : ∀ w ∈ ws, (oriented w).holds (leftValue v w) (rightValue w) = true) :
    (if ws.any fun w => (oriented w).isStrict then Relation.gt else .ge).holds
      (ws.map (leftValue v)).sum (ws.map rightValue).sum = true := by
  have hle : ∀ w ∈ ws, rightValue w ≤ leftValue v w := fun w hw => (ge_of_not_isUpper (hlow w hw) (hold w hw)).1
  split_ifs with hstrict
  · obtain ⟨w, hw, hws⟩ := List.any_eq_true.1 hstrict
    have hlt := (ge_of_not_isUpper (hlow w hw) (hold w hw)).2 hws
    simpa [Relation.holds] using List.sum_lt_sum _ _ hle ⟨w, hw, hlt⟩
  · simpa [Relation.holds] using List.sum_le_sum hle

/-- **Adding up.** Weighted constraints that hold under an assignment give the aggregate relation between the sum of
their left values and the sum of their right sides. -/
theorem aggregate_holds {ws : List Weighted} {r : Relation} {v : Assignment} (hr : aggregate ws = some r)
    (h : ∀ w ∈ ws, w.constraint.holds v = true) :
    r.holds (ws.map (leftValue v)).sum (ws.map rightValue).sum = true := by
  have hzero : ¬(ws.any fun w => w.weight = 0) = true := by
    intro hz
    simp [aggregate, hz] at hr
  simp only [aggregate, if_neg hzero] at hr
  have hnz : ∀ w ∈ ws, w.weight ≠ 0 := by simpa using hzero
  have hold : ∀ w ∈ ws, (oriented w).holds (leftValue v w) (rightValue w) = true :=
    fun w hw => oriented_holds (hnz w hw) (h w hw)
  split at hr
  · cases hr
  · rename_i hlow
    cases hr
    exact upper_holds (by simpa using hlow) hold
  · rename_i hupper _
    cases hr
    exact low_holds (by simpa using hupper) hold
  · rename_i hupper hlow
    cases hr
    have hu : ∀ w ∈ ws, (oriented w).isUpper = false := by simpa using hupper
    have hl : ∀ w ∈ ws, (oriented w).isLow = false := by simpa using hlow
    have heq : ws.map (leftValue v) = ws.map rightValue :=
      List.map_congr_left fun w hw => eq_of_neither (hu w hw) (hl w hw) (hold w hw)
    simp [Relation.holds, heq]

/-! ## Soundness -/

/-- **Refutations are sound.** Under every assignment one of the weighted constraints fails. -/
theorem isRefutation_sound {ws : List Weighted} (h : isRefutation ws = true) (v : Assignment) :
    ∃ w ∈ ws, w.constraint.holds v = false := by
  by_contra hn
  have hall : ∀ w ∈ ws, w.constraint.holds v = true := by
    intro w hw
    by_contra hw'
    exact hn ⟨w, hw, by simpa using hw'⟩
  simp only [isRefutation, Bool.and_eq_true] at h
  obtain ⟨-, h⟩ := h
  split at h
  · cases h
  · rename_i r hr
    obtain ⟨hleft, hright⟩ := Bool.and_eq_true_iff.1 h
    have hsum := aggregate_holds hr hall
    rw [(leftCancels_iff ws).1 hleft v, ← rightSum_eq_sum] at hsum
    simp [contradicts, hsum] at hright

theorem weighted?_eq_some_iff {constraints : List Constraint} {evidence : Evidence} {ws : List Weighted} :
    weighted? constraints evidence = some ws ↔
      List.Forall₂ (fun e w => w.weight = e.1 ∧ constraints[e.2]? = some w.constraint) evidence ws := by
  induction evidence generalizing ws with
  | nil =>
    rw [List.forall₂_nil_left_iff]
    simp [weighted?, eq_comm]
  | cons e rest ih =>
    rw [List.forall₂_cons_left_iff]
    simp only [← ih, weighted?, List.mapM_cons, Option.bind_eq_bind, Option.bind_eq_some_iff, Option.map_eq_some_iff]
    constructor
    · rintro ⟨w, ⟨c, hc, rfl⟩, us, hus, h⟩
      exact ⟨_, us, ⟨rfl, hc⟩, hus, (Option.some.inj h).symm⟩
    · rintro ⟨⟨k, c⟩, us, ⟨hk, hc⟩, hus, rfl⟩
      simp only at hk hc
      exact ⟨⟨k, c⟩, ⟨c, hc, by rw [hk]⟩, us, hus, rfl⟩

theorem mem_of_weighted? {constraints : List Constraint} {evidence : Evidence} {ws : List Weighted}
    (h : weighted? constraints evidence = some ws) {w : Weighted} (hw : w ∈ ws) :
    ∃ e ∈ evidence, w.weight = e.1 ∧ constraints[e.2]? = some w.constraint := by
  have hall := weighted?_eq_some_iff.1 h
  clear h
  induction hall with
  | nil => simp at hw
  | @cons e u _ _ heu _ ih =>
    rcases List.mem_cons.1 hw with rfl | hw
    · exact ⟨e, List.mem_cons_self, heu⟩
    · obtain ⟨e', he', hrest⟩ := ih hw
      exact ⟨e', List.mem_cons_of_mem _ he', hrest⟩

theorem isCorrect_iff {constraints : List Constraint} {evidence : Evidence} :
    isCorrect constraints evidence = true ↔
      ∃ ws, weighted? constraints evidence = some ws ∧ isRefutation ws = true := by
  unfold isCorrect
  cases weighted? constraints evidence <;> simp

theorem exists_fails {constraints : List Constraint} {evidence : Evidence}
    (h : isCorrect constraints evidence = true) (v : Assignment) : ∃ c ∈ constraints, c.holds v = false := by
  obtain ⟨ws, hws, hrefutes⟩ := isCorrect_iff.1 h
  obtain ⟨w, hw, hfails⟩ := isRefutation_sound hrefutes v
  obtain ⟨e, -, -, hc⟩ := mem_of_weighted? hws hw
  exact ⟨w.constraint, List.mem_of_getElem? hc, hfails⟩

/-- **Correct evidence refutes.** If evidence passes the check, then under every assignment a constraint that it
names fails. -/
theorem isCorrect_sound {constraints : List Constraint} {evidence : Evidence}
    (h : isCorrect constraints evidence = true) (v : Assignment) :
    ∃ e ∈ evidence, ∃ c, constraints[e.2]? = some c ∧ c.holds v = false := by
  obtain ⟨ws, hws, hrefutes⟩ := isCorrect_iff.1 h
  obtain ⟨w, hw, hfail⟩ := isRefutation_sound hrefutes v
  obtain ⟨e, he, -, hc⟩ := mem_of_weighted? hws hw
  exact ⟨e, he, w.constraint, hc, hfail⟩

/-- a repeated variable and a zero coefficient, a strict bound, a flipped relation and an equality: `2x < 2`,
`x - y ≥ 1` and `y = 0` -/
def tangled : List Constraint :=
  [⟨0, [⟨1, 0⟩, ⟨1, 0⟩, ⟨0, 1⟩], .lt, 2⟩, ⟨1, [⟨1, 0⟩, ⟨-1, 1⟩], .ge, 1⟩, ⟨2, [⟨1, 1⟩], .eq, 0⟩]

/-- evidence may name an equality twice, and the weighted right sides may sum to zero when a relation is strict -/
theorem tangled_is_refuted :
    isCorrect tangled [(1, 0), (-1, 2), (-2, 1), (-1, 2)] = true ∧
      ∀ v : Assignment, ∃ e ∈ ([(1, 0), (-1, 2), (-2, 1), (-1, 2)] : Evidence),
        ∃ c, tangled[e.2]? = some c ∧ c.holds v = false :=
  ⟨by decide +kernel, fun v => isCorrect_sound (by decide +kernel) v⟩

end Refutation

end Halfspace
