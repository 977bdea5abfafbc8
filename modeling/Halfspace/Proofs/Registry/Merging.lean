/-
Merging constraints on one left side.

`Interval.merge` folds restated constraints, in the order they come, into the free interval. Its ends are chosen by
rank, and a rank is the end read as a bound of a column: the low end is the first of the highest among the low ends put
to it, the upper end the first of the lowest among the upper ones.
- `low_merge`, `upper_merge`: where the ends of a fold come from, with the tie rule;
- `isFixed_iff`: an interval is fixed when it contains exactly one number;
- `merge_summarizes`: what a merged interval says about its constraints, whatever their order.
-/
import Halfspace.Proofs.Registry.Intervals
import Mathlib.Data.List.MinMax

namespace Halfspace

/-! ## First of the highest -/

section Argmax

variable {α β : Type} [LinearOrder β] {f : α → β} {xs ys : List α} {m : α}

/-- the first of the highest is the first of its own rank -/
theorem find?_of_argmax (h : xs.argmax f = some m) : xs.find? (fun x => f x = f m) = some m := by
  induction xs using List.reverseRecOn generalizing m with
  | nil => cases h
  | append_singleton xs a ih =>
    rw [List.argmax_concat] at h
    rw [List.find?_append]
    cases hx : xs.argmax f with
    | none =>
      rw [hx] at h
      obtain rfl : a = m := Option.some.inj h
      rw [List.argmax_eq_none.1 hx]
      simp
    | some c =>
      rw [hx] at h
      change (if f c < f a then some a else some c) = some m at h
      split_ifs at h with hlt
      · -- the new one is higher than all before it
        obtain rfl : a = m := Option.some.inj h
        have hnone : xs.find? (fun x => f x = f a) = none := by
          rw [List.find?_eq_none]
          intro x hmem heq
          have hle : f x ≤ f c := List.le_of_mem_argmax hmem hx
          exact absurd (of_decide_eq_true heq) (hle.trans_lt hlt).ne
        simp [hnone]
      · obtain rfl : c = m := Option.some.inj h
        rw [ih hx]
        rfl

theorem find?_of_argmin (h : xs.argmin f = some m) : xs.find? (fun x => f x = f m) = some m :=
  find?_of_argmax (β := βᵒᵈ) h

theorem map_argmax_perm (h : xs.Perm ys) : (xs.argmax f).map f = (ys.argmax f).map f := by
  cases hx : xs.argmax f with
  | none =>
    rw [List.argmax_eq_none.1 hx] at h
    rw [← h.nil_eq]
    rfl
  | some a =>
    cases hy : ys.argmax f with
    | none =>
      rw [List.argmax_eq_none.1 hy] at h
      rw [h.eq_nil] at hx
      cases hx
    | some b =>
      have hab : f a ≤ f b := List.le_of_mem_argmax (h.mem_iff.1 (List.argmax_mem hx)) hy
      have hba : f b ≤ f a := List.le_of_mem_argmax (h.mem_iff.2 (List.argmax_mem hy)) hx
      exact congrArg some (le_antisymm hab hba)

theorem map_argmin_perm (h : xs.Perm ys) : (xs.argmin f).map f = (ys.argmin f).map f :=
  map_argmax_perm (β := βᵒᵈ) h

end Argmax

/-! ## Ends and their ranks -/

def Limit.bound (l : Limit) : Rat × Bool := (l.value, l.strict)

/-- whether a restated constraint has the right side and the strictness of an end -/
def Limit.fits (l : Limit) (r : Restated) : Bool := r.rhs = l.value && r.relation.isStrict = l.strict

theorem Limit.lowDelta_eq_iff {l l' : Limit} : l.lowDelta = l'.lowDelta ↔ l.bound = l'.bound := by
  rcases l with ⟨v, _ | _, w⟩ <;> rcases l' with ⟨v', _ | _, w'⟩ <;> simp [lowDelta, bound]

theorem Limit.upperDelta_eq_iff {u u' : Limit} : u.upperDelta = u'.upperDelta ↔ u.bound = u'.bound := by
  rcases u with ⟨v, _ | _, w⟩ <;> rcases u' with ⟨v', _ | _, w'⟩ <;> simp [upperDelta, bound]

namespace Restated

/-- a constraint puts a low end exactly when it is not one of the two that bound from above only -/
theorem lowLimit?_eq (r : Restated) :
    r.lowLimit? = if r.relation.isUpper then none else some ⟨r.rhs, r.relation.isStrict, r.constraint⟩ := by
  unfold lowLimit?
  cases r.relation <;> rfl

theorem upperLimit?_eq (r : Restated) :
    r.upperLimit? = if r.relation.isLow then none else some ⟨r.rhs, r.relation.isStrict, r.constraint⟩ := by
  unfold upperLimit?
  cases r.relation <;> rfl

end Restated

namespace Interval

variable {i : Interval}

theorem raisesLow_eq {l : Limit} : i.raisesLow l = i.low.all fun c => c.lowDelta < l.lowDelta := by
  unfold raisesLow
  cases i.low with
  | none => rfl
  | some c =>
    rcases l with ⟨v, _ | _, w⟩ <;> rcases c with ⟨v', _ | _, w'⟩ <;>
      simp [Delta.lt_iff, Limit.lowDelta, @eq_comm Rat v]

theorem lowersUpper_eq {u : Limit} : i.lowersUpper u = i.upper.all fun c => u.upperDelta < c.upperDelta := by
  unfold lowersUpper
  cases i.upper with
  | none => rfl
  | some c =>
    rcases u with ⟨v, _ | _, w⟩ <;> rcases c with ⟨v', _ | _, w'⟩ <;>
      simp [Delta.lt_iff, Limit.upperDelta]

theorem low_tighten_eq (r : Restated) :
    (i.tighten r).low = r.lowLimit?.elim i.low fun l => if i.raisesLow l then some l else i.low := by
  have hlow : ∀ l, (i.tightenLow l).low = if i.raisesLow l then some l else i.low := by
    intro l
    unfold tightenLow
    split_ifs <;> rfl
  rw [tighten_eq]
  cases r.lowLimit? <;> cases r.upperLimit? <;> simp [hlow]

theorem upper_tighten_eq (r : Restated) :
    (i.tighten r).upper = r.upperLimit?.elim i.upper fun u => if i.lowersUpper u then some u else i.upper := by
  have hupper : ∀ (j : Interval) u, (j.tightenUpper u).upper = if j.lowersUpper u then some u else j.upper := by
    intro j u
    unfold tightenUpper
    split_ifs <;> rfl
  have hlowers : ∀ l u, (i.tightenLow l).lowersUpper u = i.lowersUpper u := by
    intro l u
    rw [lowersUpper_eq, lowersUpper_eq, upper_tightenLow]
  rw [tighten_eq]
  cases r.lowLimit? <;> cases r.upperLimit? <;> simp [hupper, hlowers]

/-! ## Merging -/

/-- the interval of constraints on one left side, in the order they come -/
def merge (rs : List Restated) : Interval := rs.foldl tighten whole

theorem merge_concat (rs : List Restated) (r : Restated) : merge (rs ++ [r]) = (merge rs).tighten r := by
  simp [merge]

/-- **Low ends.** The low end of a merged interval is the first of the highest that the constraints put to it. -/
theorem low_merge (rs : List Restated) :
    (merge rs).low = (rs.filterMap Restated.lowLimit?).argmax Limit.lowDelta := by
  induction rs using List.reverseRecOn with
  | nil => rfl
  | append_singleton rs r ih =>
    rw [merge_concat, low_tighten_eq, List.filterMap_append]
    cases hr : r.lowLimit? with
    | none => simpa [hr] using ih
    | some l =>
      have hlast : [r].filterMap Restated.lowLimit? = [l] := by simp [hr]
      rw [hlast, List.argmax_concat, ← ih]
      show (if (merge rs).raisesLow l then some l else (merge rs).low) = _
      rw [raisesLow_eq]
      cases (merge rs).low <;> simp

/-- **Upper ends.** The upper end of a merged interval is the first of the lowest that the constraints put to it. -/
theorem upper_merge (rs : List Restated) :
    (merge rs).upper = (rs.filterMap Restated.upperLimit?).argmin Limit.upperDelta := by
  induction rs using List.reverseRecOn with
  | nil => rfl
  | append_singleton rs r ih =>
    rw [merge_concat, upper_tighten_eq, List.filterMap_append]
    cases hr : r.upperLimit? with
    | none => simpa [hr] using ih
    | some u =>
      have hlast : [r].filterMap Restated.upperLimit? = [u] := by simp [hr]
      rw [hlast, List.argmin_concat, ← ih]
      show (if (merge rs).lowersUpper u then some u else (merge rs).upper) = _
      rw [lowersUpper_eq]
      cases (merge rs).upper <;> simp

theorem contains_merge {rs : List Restated} {q : Rat} : (merge rs).contains q = true ↔ ∀ r ∈ rs, r.holds q = true := by
  have hwhole : whole.contains q = true := rfl
  rw [merge, contains_foldl]
  simp [hwhole]

/-- the ends of merged constraints are the same in any order, but for their witnesses -/
theorem low_merge_perm {rs rs' : List Restated} (h : rs.Perm rs') :
    (merge rs).low.map Limit.bound = (merge rs').low.map Limit.bound := by
  have hrank : (merge rs).low.map Limit.lowDelta = (merge rs').low.map Limit.lowDelta := by
    rw [low_merge, low_merge]
    exact map_argmax_perm (h.filterMap _)
  revert hrank
  cases (merge rs).low <;> cases (merge rs').low <;> simp [Limit.lowDelta_eq_iff]

theorem upper_merge_perm {rs rs' : List Restated} (h : rs.Perm rs') :
    (merge rs).upper.map Limit.bound = (merge rs').upper.map Limit.bound := by
  have hrank : (merge rs).upper.map Limit.upperDelta = (merge rs').upper.map Limit.upperDelta := by
    rw [upper_merge, upper_merge]
    exact map_argmin_perm (h.filterMap _)
  revert hrank
  cases (merge rs).upper <;> cases (merge rs').upper <;> simp [Limit.upperDelta_eq_iff]

/-- the witness of a low end is the first constraint that puts this end -/
theorem low_merge_witness {rs : List Restated} {l : Limit} (h : (merge rs).low = some l) :
    (rs.find? fun r => !r.relation.isUpper && l.fits r).map Restated.constraint = some l.witness := by
  rw [low_merge] at h
  have hfirst := find?_of_argmax h
  rw [List.find?_filterMap, Option.bind_eq_some_iff] at hfirst
  obtain ⟨r, hr, hl⟩ := hfirst
  have hsame : (fun r : Restated => r.lowLimit?.any fun x => x.lowDelta = l.lowDelta) =
      fun r => !r.relation.isUpper && l.fits r := by
    funext r
    rw [r.lowLimit?_eq]
    cases r.relation.isUpper <;> simp [Limit.lowDelta_eq_iff, Limit.bound, Limit.fits]
  rw [← hsame, hr]
  rw [r.lowLimit?_eq] at hl
  split_ifs at hl
  rw [← Option.some.inj hl]
  rfl

theorem upper_merge_witness {rs : List Restated} {u : Limit} (h : (merge rs).upper = some u) :
    (rs.find? fun r => !r.relation.isLow && u.fits r).map Restated.constraint = some u.witness := by
  rw [upper_merge] at h
  have hfirst := find?_of_argmin h
  rw [List.find?_filterMap, Option.bind_eq_some_iff] at hfirst
  obtain ⟨r, hr, hu⟩ := hfirst
  have hsame : (fun r : Restated => r.upperLimit?.any fun x => x.upperDelta = u.upperDelta) =
      fun r => !r.relation.isLow && u.fits r := by
    funext r
    rw [r.upperLimit?_eq]
    cases r.relation.isLow <;> simp [Limit.upperDelta_eq_iff, Limit.bound, Limit.fits]
  rw [← hsame, hr]
  rw [r.upperLimit?_eq] at hu
  split_ifs at hu
  rw [← Option.some.inj hu]
  rfl

/-! ## Fixed intervals -/

/-- an interval that is neither empty nor fixed contains two numbers: two thirds between its ends, or two beyond its
only end -/
theorem exists_contains_two (hne : i.isEmpty = false) (hfix : i.isFixed = false) :
    ∃ p q, p < q ∧ i.contains p = true ∧ i.contains q = true := by
  unfold isEmpty at hne
  unfold isFixed at hfix
  unfold contains
  cases hl : i.low with
  | none =>
    cases hu : i.upper with
    | none => exact ⟨0, 1, by simp⟩
    | some u =>
      refine ⟨u.value - 2, u.value - 1, by linarith, ?_⟩
      simp [insideUpper]
  | some l =>
    cases hu : i.upper with
    | none =>
      refine ⟨l.value + 1, l.value + 2, by linarith, ?_⟩
      simp [insideLow]
    | some u =>
      rw [hl, hu] at hne hfix
      have hlt : l.value < u.value := by
        rcases l with ⟨v, _ | _, w⟩ <;> rcases u with ⟨v', _ | _, w'⟩ <;> simp at hne hfix ⊢ <;> grind
      refine ⟨(2 * l.value + u.value) / 3, (l.value + 2 * u.value) / 3, by linarith, ?_⟩
      simp only [Option.all_some, insideLow, insideUpper]
      cases l.strict <;> cases u.strict <;> simp <;> grind

/-- **Fixed intervals.** An interval is fixed exactly when it contains one number and no other. -/
theorem isFixed_iff (i : Interval) : i.isFixed = true ↔ ∃! q, i.contains q = true := by
  constructor
  · intro h
    unfold isFixed at h
    unfold contains
    split at h
    next l u hl hu =>
      simp only [Bool.and_eq_true, Bool.not_eq_true', decide_eq_true_eq] at h
      obtain ⟨⟨hvalue, hls⟩, hus⟩ := h
      refine ⟨l.value, ?_, ?_⟩
      · simp [hl, hu, insideLow, insideUpper, hls, hus, hvalue]
      · intro q hq
        simp only [hl, hu, insideLow, insideUpper, hls, hus, Option.all_some, Bool.and_eq_true, decide_eq_true_eq,
          if_false, Bool.false_eq_true] at hq
        exact le_antisymm (hvalue ▸ hq.2) hq.1
    next => cases h
  · intro hone
    obtain ⟨q, hq, hunique⟩ := hone
    by_contra hfix
    have hne : i.isEmpty = false := by
      by_contra hempty
      rw [Bool.not_eq_false] at hempty
      exact absurd hq (by simp [not_contains_of_isEmpty hempty q])
    obtain ⟨a, b, hlt, ha, hb⟩ := exists_contains_two hne (Bool.eq_false_iff.2 hfix)
    exact hlt.ne ((hunique a ha).trans (hunique b hb).symm)

/-! ## What a merged interval says -/

/-- what an interval says about constraints on one left side -/
structure Summarizes (i : Interval) (rs : List Restated) : Prop where
  /-- the numbers inside are those that satisfy all constraints -/
  contains_iff : ∀ q, i.contains q = true ↔ ∀ r ∈ rs, r.holds q = true
  /-- in any other order the low end has the same number and strictness -/
  low_perm : ∀ rs', rs'.Perm rs → (merge rs').low.map Limit.bound = i.low.map Limit.bound
  upper_perm : ∀ rs', rs'.Perm rs → (merge rs').upper.map Limit.bound = i.upper.map Limit.bound
  /-- its witness is the first constraint with its right side and strictness, of those that bound from below -/
  low_first : ∀ l, i.low = some l →
    (rs.find? fun r => !r.relation.isUpper && l.fits r).map Restated.constraint = some l.witness
  upper_first : ∀ u, i.upper = some u →
    (rs.find? fun r => !r.relation.isLow && u.fits r).map Restated.constraint = some u.witness
  /-- it is empty when nothing satisfies all constraints, and fixed when exactly one number does -/
  isEmpty_iff : i.isEmpty = true ↔ ¬∃ q, ∀ r ∈ rs, r.holds q = true
  isFixed_iff : i.isFixed = true ↔ ∃! q, ∀ r ∈ rs, r.holds q = true

/-- **Merging.** Constraints on one left side merge into the interval of the numbers that satisfy them all. Its numbers
and strictness do not depend on their order, and its witnesses are the first that could be. -/
theorem merge_summarizes (rs : List Restated) : (merge rs).Summarizes rs where
  contains_iff _ := contains_merge
  low_perm _ h := low_merge_perm h
  upper_perm _ h := upper_merge_perm h
  low_first _ h := low_merge_witness h
  upper_first _ h := upper_merge_witness h
  isEmpty_iff := by
    rw [isEmpty_iff_forall]
    simp only [← contains_merge, not_exists, Bool.not_eq_true]
  isFixed_iff := by
    rw [isFixed_iff]
    simp only [contains_merge]

end Interval

end Halfspace
