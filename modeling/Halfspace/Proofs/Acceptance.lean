/-
When the refutation check accepts.

Constraints whose weights all make them point upwards, equalities aside, are accepted as soon as their left sides cancel
and their right sides sum to a number below zero, or to zero with a strict relation among them. Weights of one
constraint that point the same way can be added up first: they point that way together (`Fits.eval_unit`), and those of
a strict constraint do not cancel (`Fits.eval_unit_ne_zero`).
- `isRefutation_of_upper`: when constraints that point upwards refute one another;
- `sum_of_weighted`: what the check adds up, as the value of a linear form over the constraints.
-/
import Halfspace.Proofs.Certificate

namespace Halfspace

namespace Refutation

/-! ## When constraints refute one another -/

/-- constraints that point upwards or are equalities, with left sides that cancel, refute one another if the sum of the
right sides is negative, or zero and a relation is strict -/
theorem isRefutation_of_upper {ws : List Weighted} (hnonzero : ∀ w ∈ ws, w.weight ≠ 0)
    (hupper : ∀ w ∈ ws, (oriented w).isLow = false) (hleft : ∀ v, (ws.map (leftValue v)).sum = 0)
    (hright : rightSum ws < 0 ∨ rightSum ws = 0 ∧ ∃ w ∈ ws, (oriented w).isStrict = true) :
    isRefutation ws = true := by
  have hne : ws.isEmpty = false := by
    cases ws with
    | nil => simp [rightSum] at hright
    | cons => rfl
  have hzero : (ws.any fun w => w.weight = 0) = false := by simpa using hnonzero
  have hlow : (ws.any fun w => (oriented w).isLow) = false := by simpa using hupper
  have hstrict_upper : ∀ w ∈ ws, (oriented w).isStrict = true → (oriented w).isUpper = true := by
    intro w hw hs
    have := hupper w hw
    cases hr : oriented w <;> simp_all [Relation.isStrict, Relation.isLow, Relation.isUpper]
  have hcancels := (leftCancels_iff ws).2 hleft
  simp only [isRefutation, aggregate, hne, hzero, hlow, hcancels, Bool.not_false, Bool.true_and, Bool.false_eq_true,
    if_false]
  cases hup : ws.any fun w => (oriented w).isUpper with
  | false =>
    -- all are equalities, so that none is strict
    have hnone : ¬∃ w ∈ ws, (oriented w).isStrict = true := by
      rintro ⟨w, hw, hs⟩
      have hany : (ws.any fun w => (oriented w).isUpper) = true := List.any_eq_true.2 ⟨w, hw, hstrict_upper w hw hs⟩
      rw [hup] at hany
      cases hany
    have hlt : rightSum ws < 0 := hright.resolve_right fun h => hnone h.2
    simp [contradicts, Relation.holds, hlt.ne']
  | true =>
    cases hs : ws.any fun w => (oriented w).isStrict with
    | true =>
      have hle : rightSum ws ≤ 0 := hright.elim le_of_lt fun h => h.1.le
      simp [contradicts, Relation.holds, hle]
    | false =>
      have hlt : rightSum ws < 0 := hright.resolve_right fun h => by
        obtain ⟨w, hw, hstrict⟩ := h.2
        have hany : (ws.any fun w => (oriented w).isStrict) = true := List.any_eq_true.2 ⟨w, hw, hstrict⟩
        rw [hs] at hany
        cases hany
      simp [contradicts, Relation.holds, hlt]

theorem exists_weighted {constraints : List Constraint} {evidence : Evidence}
    (h : ∀ e ∈ evidence, ∃ c, constraints[e.2]? = some c) : ∃ ws, weighted? constraints evidence = some ws := by
  induction evidence with
  | nil => exact ⟨[], rfl⟩
  | cons e rest ih =>
    obtain ⟨c, hc⟩ := h e List.mem_cons_self
    obtain ⟨ws, hws⟩ := ih fun e' he' => h e' (List.mem_cons_of_mem _ he')
    exact ⟨⟨e.1, c⟩ :: ws, weighted?_eq_some_iff.2 (.cons ⟨rfl, hc⟩ (weighted?_eq_some_iff.1 hws))⟩

theorem exists_of_mem_evidence {constraints : List Constraint} {evidence : Evidence} {ws : List Weighted}
    (h : weighted? constraints evidence = some ws) {e : Rat × Nat} (he : e ∈ evidence) :
    ∃ w ∈ ws, w.weight = e.1 ∧ constraints[e.2]? = some w.constraint := by
  have hall := weighted?_eq_some_iff.1 h
  clear h
  induction hall with
  | nil => simp at he
  | @cons _ w _ _ hw _ ih =>
    rcases List.mem_cons.1 he with rfl | he
    · exact ⟨w, List.mem_cons_self, hw⟩
    · obtain ⟨w', hw', hrest⟩ := ih he
      exact ⟨w', List.mem_cons_of_mem _ hw', hrest⟩

theorem isStrict_oriented (w : Weighted) : (oriented w).isStrict = w.constraint.relation.isStrict := by
  unfold oriented
  split_ifs <;> simp

/-- weighted values add up as the terms do that name the constraints -/
theorem sum_of_weighted {constraints : List Constraint} {terms : List Term} {ws : List Weighted} {f : Assignment}
    {g : Constraint → Rat} (hf : ∀ t ∈ terms, ∀ c, constraints[t.var.toNat]? = some c → f t.var = g c)
    (h : List.Forall₂ (fun (e : Rat × Nat) w => w.weight = e.1 ∧ constraints[e.2]? = some w.constraint)
      (terms.map fun t => (t.coef, t.var.toNat)) ws) :
    (ws.map fun w => w.weight * g w.constraint).sum = LinearForm.eval f terms := by
  induction terms generalizing ws with
  | nil =>
    rw [List.map_nil, List.forall₂_nil_left_iff] at h
    rw [h]
    rfl
  | cons t rest ih =>
    rw [List.map_cons, List.forall₂_cons_left_iff] at h
    obtain ⟨w, us, ⟨hw, hc⟩, hus, rfl⟩ := h
    rw [List.map_cons, List.sum_cons, ih (fun t' ht' => hf t' (List.mem_cons_of_mem _ ht')) hus, hw,
      ← hf t List.mem_cons_self _ hc]
    rfl

/-! ## Weights of one constraint -/

/-- weights with which a constraint points upwards, zero among them -/
def Fits (c : Constraint) (k : Rat) : Prop :=
  (c.relation.isUpper = true → 0 ≤ k) ∧ (c.relation.isLow = true → k ≤ 0)

theorem Fits.zero (c : Constraint) : Fits c 0 := ⟨fun _ => le_rfl, fun _ => le_rfl⟩

theorem Fits.add {c : Constraint} {k l : Rat} (hk : Fits c k) (hl : Fits c l) : Fits c (k + l) :=
  ⟨fun h => add_nonneg (hk.1 h) (hl.1 h), fun h => add_nonpos (hk.2 h) (hl.2 h)⟩

theorem fits_iff {c : Constraint} {k : Rat} (h0 : k ≠ 0) : Fits c k ↔ (oriented ⟨k, c⟩).isLow = false := by
  unfold Fits oriented
  rcases h0.lt_or_gt with hneg | hpos
  · rw [if_pos hneg]
    cases c.relation <;> simp [Relation.isUpper, Relation.isLow, Relation.flip, hneg, hneg.le]
  · rw [if_neg hpos.not_gt]
    cases c.relation <;> simp [Relation.isUpper, Relation.isLow, hpos, hpos.le]

/-- the sum of weights of one constraint points the way that each of them does -/
theorem Fits.eval_unit {c : Constraint} {x : Int} {terms : List Term} (h : ∀ t ∈ terms, t.var = x → Fits c t.coef) :
    Fits c (LinearForm.eval (Assignment.unit x) terms) := by
  induction terms with
  | nil => exact Fits.zero c
  | cons t rest ih =>
    have hrest := ih fun u hu => h u (List.mem_cons_of_mem _ hu)
    simp only [LinearForm.eval, Assignment.unit]
    split_ifs with hx
    · rw [mul_one]
      exact (h t List.mem_cons_self hx).add hrest
    · rw [mul_zero, zero_add]
      exact hrest

theorem Fits.eval_unit_ne_zero {c : Constraint} (hs : c.relation.isStrict = true) {x : Int} {terms : List Term}
    (h : ∀ t ∈ terms, t.var = x → Fits c t.coef) (hx : ∃ t ∈ terms, t.var = x ∧ t.coef ≠ 0) :
    LinearForm.eval (Assignment.unit x) terms ≠ 0 := by
  have hone : (c.relation.isUpper = true) ∨ c.relation.isLow = true := by
    cases hr : c.relation <;> simp_all [Relation.isStrict, Relation.isUpper, Relation.isLow]
  induction terms with
  | nil => simp at hx
  | cons t rest ih =>
    have hrest : ∀ u ∈ rest, u.var = x → Fits c u.coef := fun u hu => h u (List.mem_cons_of_mem _ hu)
    have hsum := Fits.eval_unit hrest
    simp only [LinearForm.eval, Assignment.unit]
    split_ifs with htx
    · rw [mul_one]
      have ht := h t List.mem_cons_self htx
      intro hzero
      -- summands of one sign that cancel are zero, and so is every later weight of `x`
      have hboth : t.coef = 0 ∧ LinearForm.eval (Assignment.unit x) rest = 0 := by
        rcases hone with hup | hlow
        · have h1 := ht.1 hup
          have h2 := hsum.1 hup
          constructor <;> linarith
        · have h1 := ht.2 hlow
          have h2 := hsum.2 hlow
          constructor <;> linarith
      obtain ⟨u, hu, hux, hu0⟩ := hx
      rcases List.mem_cons.1 hu with rfl | hu
      · exact hu0 hboth.1
      · exact ih hrest ⟨u, hu, hux, hu0⟩ hboth.2
    · rw [mul_zero, zero_add]
      obtain ⟨u, hu, hux, hu0⟩ := hx
      rcases List.mem_cons.1 hu with rfl | hu
      · exact absurd hux htx
      · exact ih hrest ⟨u, hu, hux, hu0⟩

end Refutation

end Halfspace
