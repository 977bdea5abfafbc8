/-
Evidence in another order and on another scale.

The check looks at weighted constraints through three things: which relations there are among them, the sum of their left
sides and that of their right sides. None of these depends on the order. A positive factor on all weights leaves the
relations alone and a negative one flips them all, so that what points upwards points downwards and the aggregate relation
is flipped as a whole (`aggregate_scale`); the sums are multiplied, so that left sides cancel as before, and the flipped
relation of zero to the multiplied sum is the old one of zero to the old sum (`contradicts_scale`).
- `isRefutation_rescaled`: the statement about weighted constraints, however they were named;
- `isCorrect_rescaled`: the statement about evidence that names constraints by their positions.
-/
import Halfspace.Proofs.Certificate

namespace Halfspace

def Weighted.scale (k : Rat) (w : Weighted) : Weighted := { w with weight := k * w.weight }

namespace Refutation

variable {k : Rat} {ws ws' : List Weighted} {constraints : List Constraint} {evidence evidence' : Evidence}

/-! ## Another order -/

theorem aggregate_perm (h : ws'.Perm ws) : aggregate ws' = aggregate ws := by
  unfold aggregate
  rw [h.any_eq, h.any_eq, h.any_eq, h.any_eq]

theorem rightSum_perm (h : ws'.Perm ws) : rightSum ws' = rightSum ws := by
  rw [rightSum_eq_sum, rightSum_eq_sum]
  exact (h.map rightValue).sum_eq

theorem leftCancels_perm (h : ws'.Perm ws) : leftCancels ws' = leftCancels ws := by
  rw [Bool.eq_iff_iff, leftCancels_iff, leftCancels_iff]
  exact forall_congr' fun v => by rw [(h.map (leftValue v)).sum_eq]

theorem isRefutation_perm (h : ws'.Perm ws) : isRefutation ws' = isRefutation ws := by
  unfold isRefutation contradicts
  rw [aggregate_perm h, leftCancels_perm h, rightSum_perm h, h.isEmpty_eq]

/-! ## Another scale -/

/-- **One weighted constraint.** Its relation is turned as its weight is. -/
theorem oriented_scale (hk : k ≠ 0) {w : Weighted} (h0 : w.weight ≠ 0) :
    oriented (w.scale k) = (oriented w).turned k := by
  unfold oriented Weighted.scale Relation.turned
  dsimp only
  rcases hk.lt_or_gt with hneg | hpos
  · rw [if_pos hneg]
    rcases h0.lt_or_gt with hw | hw
    · rw [if_neg (mul_pos_of_neg_of_neg hneg hw).not_gt, if_pos hw, Relation.flip_flip]
    · rw [if_pos (mul_neg_of_neg_of_pos hneg hw), if_neg hw.not_gt]
  · rw [if_neg hpos.not_gt]
    rcases h0.lt_or_gt with hw | hw
    · rw [if_pos (mul_neg_of_pos_of_neg hpos hw), if_pos hw]
    · rw [if_neg (mul_pos hpos hw).not_gt, if_neg hw.not_gt]

theorem any_weight_scale (hk : k ≠ 0) (ws : List Weighted) :
    ((ws.map (Weighted.scale k)).any fun w => w.weight = 0) = ws.any fun w => w.weight = 0 := by
  simp [List.any_map, Weighted.scale, hk, Function.comp_def]

theorem any_oriented_scale (hk : k ≠ 0) (hnonzero : ∀ w ∈ ws, w.weight ≠ 0) (p : Relation → Bool) :
    ((ws.map (Weighted.scale k)).any fun w => p (oriented w)) = ws.any fun w => p ((oriented w).turned k) := by
  rw [List.any_map, Bool.eq_iff_iff, List.any_eq_true, List.any_eq_true]
  refine exists_congr fun w => and_congr_right fun hw => ?_
  rw [Function.comp_apply, oriented_scale hk (hnonzero w hw)]

/-- **Relations.** The aggregate relation is turned as the weights are, and there is none as long as there was none. -/
theorem aggregate_scale (hk : k ≠ 0) (ws : List Weighted) :
    aggregate (ws.map (Weighted.scale k)) = (aggregate ws).map (Relation.turned k) := by
  unfold aggregate
  dsimp only
  rw [any_weight_scale hk]
  by_cases hany : (ws.any fun w => w.weight = 0) = true
  · rw [if_pos hany, if_pos hany]
    rfl
  · have hnonzero : ∀ w ∈ ws, w.weight ≠ 0 := by simpa using hany
    rw [if_neg hany, if_neg hany, any_oriented_scale hk hnonzero, any_oriented_scale hk hnonzero,
      any_oriented_scale hk hnonzero]
    simp only [Relation.isStrict_turned]
    -- a negative factor exchanges the two directions, and with them the two middle cases
    by_cases hneg : k < 0
    · have hturned : Relation.turned k = Relation.flip := funext fun _ => if_pos hneg
      simp only [hturned, Relation.isUpper_flip, Relation.isLow_flip]
      cases ws.any fun w => (oriented w).isUpper <;> cases ws.any fun w => (oriented w).isLow <;>
        cases ws.any fun w => (oriented w).isStrict <;> rfl
    · have hturned : Relation.turned k = id := funext fun _ => if_neg hneg
      rw [hturned, Option.map_id]
      rfl

theorem rightSum_scale (k : Rat) (ws : List Weighted) : rightSum (ws.map (Weighted.scale k)) = k * rightSum ws := by
  induction ws with
  | nil => simp [rightSum]
  | cons w rest ih =>
    rw [List.map_cons, rightSum, rightSum, ih, Weighted.scale]
    ring

theorem contradicts_scale (hk : k ≠ 0) (r : Relation) (ws : List Weighted) :
    contradicts (r.turned k) (ws.map (Weighted.scale k)) = contradicts r ws := by
  unfold contradicts
  rw [rightSum_scale]
  conv_lhs => rw [← mul_zero k]
  rw [Relation.holds_turned hk]

theorem sum_leftValue_scale (k : Rat) (v : Assignment) (ws : List Weighted) :
    ((ws.map (Weighted.scale k)).map (leftValue v)).sum = k * (ws.map (leftValue v)).sum := by
  induction ws with
  | nil => simp
  | cons w rest ih =>
    rw [List.map_cons, List.map_cons, List.sum_cons, ih, List.map_cons, List.sum_cons, leftValue, leftValue,
      Weighted.scale]
    ring

theorem leftCancels_scale (hk : k ≠ 0) (ws : List Weighted) :
    leftCancels (ws.map (Weighted.scale k)) = leftCancels ws := by
  rw [Bool.eq_iff_iff, leftCancels_iff, leftCancels_iff]
  refine forall_congr' fun v => ?_
  rw [sum_leftValue_scale, mul_eq_zero, or_iff_right hk]

theorem isRefutation_scale (hk : k ≠ 0) (ws : List Weighted) :
    isRefutation (ws.map (Weighted.scale k)) = isRefutation ws := by
  unfold isRefutation
  rw [aggregate_scale hk, leftCancels_scale hk, List.isEmpty_map]
  cases aggregate ws with
  | none => rfl
  | some r =>
    dsimp only [Option.map_some]
    rw [contradicts_scale hk]

/-- **Weighted constraints** refute one another on every scale and in every order, or on none and in none. -/
theorem isRefutation_rescaled (hk : k ≠ 0) (h : ws'.Perm (ws.map (Weighted.scale k))) :
    isRefutation ws' = isRefutation ws := (isRefutation_perm h).trans (isRefutation_scale hk ws)

/-! ## Evidence -/

theorem weighted?_scale (k : Rat) (constraints : List Constraint) (evidence : Evidence) :
    weighted? constraints (evidence.map fun e => (k * e.1, e.2)) =
      (weighted? constraints evidence).map (List.map (Weighted.scale k)) := by
  induction evidence with
  | nil => rfl
  | cons e rest ih =>
    unfold weighted? at ih ⊢
    rw [List.map_cons, List.mapM_cons, List.mapM_cons, ih]
    cases constraints[e.2]? with
    | none => rfl
    | some c => cases rest.mapM fun e => (constraints[e.2]?).map (⟨e.1, ·⟩ : Constraint → Weighted) <;> rfl

/-- evidence in another order names the same constraints in another order -/
theorem exists_weighted_perm (h : evidence'.Perm evidence) (hws : weighted? constraints evidence = some ws) :
    ∃ ws', weighted? constraints evidence' = some ws' ∧ ws'.Perm ws := by
  obtain ⟨ws', hnamed, hperm⟩ := List.perm_comp_forall₂ h (weighted?_eq_some_iff.1 hws)
  exact ⟨ws', weighted?_eq_some_iff.2 hnamed, hperm⟩

theorem isCorrect_perm (constraints : List Constraint) (h : evidence'.Perm evidence) :
    isCorrect constraints evidence' = isCorrect constraints evidence := by
  have himp : ∀ {a b : Evidence}, a.Perm b → isCorrect constraints b = true → isCorrect constraints a = true := by
    intro a b hab hb
    obtain ⟨ws, hws, hrefutes⟩ := isCorrect_iff.1 hb
    obtain ⟨ws', hws', hperm⟩ := exists_weighted_perm hab hws
    exact isCorrect_iff.2 ⟨ws', hws', (isRefutation_perm hperm).trans hrefutes⟩
  exact Bool.eq_iff_iff.2 ⟨himp h.symm, himp h⟩

theorem isCorrect_scale (hk : k ≠ 0) (constraints : List Constraint) (evidence : Evidence) :
    isCorrect constraints (evidence.map fun e => (k * e.1, e.2)) = isCorrect constraints evidence := by
  unfold isCorrect
  rw [weighted?_scale]
  cases weighted? constraints evidence with
  | none => rfl
  | some ws => exact isRefutation_scale hk ws

/-- **Order and scale do not matter.** Evidence with all its weights multiplied by a rational other than zero, of either
sign, and in any order, is correct exactly when it was. -/
theorem isCorrect_rescaled (hk : k ≠ 0) (constraints : List Constraint)
    (h : evidence'.Perm (evidence.map fun e => (k * e.1, e.2))) :
    isCorrect constraints evidence' = isCorrect constraints evidence :=
  (isCorrect_perm constraints h).trans (isCorrect_scale hk constraints evidence)

/-- `3x > 6` with terms that repeat `x`, `y - x ≥ -1`, `y = 1`, and `2y ≤ 1`, which takes no part in the contradiction -/
def turnable : List Constraint :=
  [⟨0, [⟨1, 0⟩, ⟨2, 0⟩], .gt, 6⟩, ⟨1, [⟨1, 1⟩, ⟨-1, 0⟩], .ge, -1⟩, ⟨2, [⟨1, 1⟩], .eq, 1⟩, ⟨3, [⟨2, 1⟩], .le, 1⟩]

/-- correct evidence with an equality named twice stays correct when it is turned around and its parts change places, and
evidence that points both ways stays incorrect -/
theorem turnable_is_turned : (-6 : Rat) ≠ 0 ∧
    isCorrect turnable [(-6, 1), (3, 2), (3, 2), (-2, 0)] = isCorrect turnable [(1/3, 0), (-1/2, 2), (1, 1), (-1/2, 2)] ∧
    isCorrect turnable [(1/3, 0), (-1/2, 2), (1, 1), (-1/2, 2)] = true ∧
    isCorrect turnable [(3, 3), (-6, 0)] = isCorrect turnable [(1, 0), (-1/2, 3)] ∧
    isCorrect turnable [(1, 0), (-1/2, 3)] = false :=
  have hk : (-6 : Rat) ≠ 0 := by decide
  ⟨hk, isCorrect_rescaled hk turnable (by decide +kernel), by decide +kernel,
    isCorrect_rescaled hk turnable (by decide +kernel), by decide +kernel⟩

end Refutation

end Halfspace
