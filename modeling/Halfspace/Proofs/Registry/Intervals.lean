/-
Intervals as intersections.

Folding restated constraints into an interval keeps exactly the numbers that satisfy all of them, and each end of the
result is the end that one of them puts there, so that its witness can answer for it.
- `contains_foldl`: what the fold contains;
- `low_foldl`, `upper_foldl`: where its ends come from;
- `contains_span_iff`: as bounds of a column it leaves the same numbers in place;
- `isEmpty_iff`, `isEmpty_iff_forall`: an interval is empty when its bounds, as bounds of a column, are crossed, which
  is when it contains no number.
-/
import Halfspace.Interval
import Halfspace.Proofs.Engine.Step

namespace Halfspace

/-! ## Ends of restated constraints -/

namespace Restated

/-- the low end that a restated constraint puts to an interval -/
def lowLimit? (r : Restated) : Option Limit :=
  match r.relation with
  | .ge | .eq => some ⟨r.rhs, false, r.constraint⟩
  | .gt => some ⟨r.rhs, true, r.constraint⟩
  | .le | .lt => none

/-- the upper end that a restated constraint puts to an interval -/
def upperLimit? (r : Restated) : Option Limit :=
  match r.relation with
  | .le | .eq => some ⟨r.rhs, false, r.constraint⟩
  | .lt => some ⟨r.rhs, true, r.constraint⟩
  | .ge | .gt => none

theorem holds_iff (r : Restated) (q : Rat) : r.holds q = true ↔
    (∀ l, r.lowLimit? = some l → Interval.insideLow l q = true) ∧
      ∀ u, r.upperLimit? = some u → Interval.insideUpper u q = true := by
  unfold holds lowLimit? upperLimit?
  cases r.relation with
  | le => simp [Relation.holds, Interval.insideUpper]
  | lt => simp [Relation.holds, Interval.insideUpper]
  | ge => simp [Relation.holds, Interval.insideLow]
  | gt => simp [Relation.holds, Interval.insideLow]
  | eq =>
    simp only [Relation.holds, Interval.insideLow, Interval.insideUpper, Option.some.injEq, forall_eq', if_false,
      decide_eq_true_eq, Bool.false_eq_true]
    exact ⟨fun h => ⟨h.ge, h.le⟩, fun h => le_antisymm h.2 h.1⟩

end Restated

namespace Interval

variable {i : Interval} {l u : Limit} {q : Rat}

theorem contains_iff : i.contains q = true ↔
    (∀ l, i.low = some l → insideLow l q = true) ∧ ∀ u, i.upper = some u → insideUpper u q = true := by
  unfold contains
  cases i.low <;> cases i.upper <;> simp

/-! ## One constraint -/

/-- a low end that does not win excludes nothing more -/
theorem insideLow_of_not_raises {c : Limit} (hc : i.low = some c) (h : i.raisesLow l = false)
    (hq : insideLow c q = true) : insideLow l q = true := by
  unfold raisesLow at h
  rw [hc] at h
  unfold insideLow at hq ⊢
  rcases l with ⟨v, _ | _, w⟩ <;> rcases c with ⟨v', _ | _, w'⟩ <;> simp at h hq ⊢ <;> grind

/-- a low end that wins excludes what the old one did -/
theorem insideLow_of_raises {c : Limit} (hc : i.low = some c) (h : i.raisesLow l = true)
    (hq : insideLow l q = true) : insideLow c q = true := by
  unfold raisesLow at h
  rw [hc] at h
  unfold insideLow at hq ⊢
  rcases l with ⟨v, _ | _, w⟩ <;> rcases c with ⟨v', _ | _, w'⟩ <;> simp at h hq ⊢ <;> grind

theorem insideUpper_of_not_lowers {c : Limit} (hc : i.upper = some c) (h : i.lowersUpper u = false)
    (hq : insideUpper c q = true) : insideUpper u q = true := by
  unfold lowersUpper at h
  rw [hc] at h
  unfold insideUpper at hq ⊢
  rcases u with ⟨v, _ | _, w⟩ <;> rcases c with ⟨v', _ | _, w'⟩ <;> simp at h hq ⊢ <;> grind

theorem insideUpper_of_lowers {c : Limit} (hc : i.upper = some c) (h : i.lowersUpper u = true)
    (hq : insideUpper u q = true) : insideUpper c q = true := by
  unfold lowersUpper at h
  rw [hc] at h
  unfold insideUpper at hq ⊢
  rcases u with ⟨v, _ | _, w⟩ <;> rcases c with ⟨v', _ | _, w'⟩ <;> simp at h hq ⊢ <;> grind

theorem contains_tightenLow : (i.tightenLow l).contains q = true ↔ i.contains q = true ∧ insideLow l q = true := by
  unfold tightenLow
  split_ifs with h
  · rw [contains_iff, contains_iff]
    constructor
    · rintro ⟨hl, hu⟩
      exact ⟨⟨fun c hc => insideLow_of_raises hc h (hl l rfl), hu⟩, hl l rfl⟩
    · rintro ⟨⟨-, hu⟩, hl⟩
      exact ⟨fun c hc => Option.some.inj hc ▸ hl, hu⟩
  · rw [Bool.not_eq_true] at h
    refine ⟨fun hq => ⟨hq, ?_⟩, fun hq => hq.1⟩
    cases hc : i.low with
    | none => simp [raisesLow, hc] at h
    | some c => exact insideLow_of_not_raises hc h ((contains_iff.1 hq).1 c hc)

theorem contains_tightenUpper :
    (i.tightenUpper u).contains q = true ↔ i.contains q = true ∧ insideUpper u q = true := by
  unfold tightenUpper
  split_ifs with h
  · rw [contains_iff, contains_iff]
    constructor
    · rintro ⟨hl, hu⟩
      exact ⟨⟨hl, fun c hc => insideUpper_of_lowers hc h (hu u rfl)⟩, hu u rfl⟩
    · rintro ⟨⟨hl, -⟩, hu⟩
      exact ⟨hl, fun c hc => Option.some.inj hc ▸ hu⟩
  · rw [Bool.not_eq_true] at h
    refine ⟨fun hq => ⟨hq, ?_⟩, fun hq => hq.1⟩
    cases hc : i.upper with
    | none => simp [lowersUpper, hc] at h
    | some c => exact insideUpper_of_not_lowers hc h ((contains_iff.1 hq).2 c hc)

/-- an interval with a restated constraint folded in, one end at a time -/
theorem tighten_eq (i : Interval) (r : Restated) :
    i.tighten r =
      r.upperLimit?.elim (r.lowLimit?.elim i i.tightenLow) (r.lowLimit?.elim i i.tightenLow).tightenUpper := by
  unfold tighten Restated.upperLimit? Restated.lowLimit?
  cases r.relation <;> rfl

theorem contains_tighten {r : Restated} :
    (i.tighten r).contains q = true ↔ i.contains q = true ∧ r.holds q = true := by
  rw [tighten_eq, Restated.holds_iff]
  cases r.lowLimit? <;> cases r.upperLimit? <;> simp [contains_tightenLow, contains_tightenUpper, and_assoc]

theorem low_tightenLow {c : Limit} (h : (i.tightenLow l).low = some c) : i.low = some c ∨ l = c := by
  unfold tightenLow at h
  split_ifs at h
  · exact Or.inr (Option.some.inj h)
  · exact Or.inl h

theorem upper_tightenUpper {c : Limit} (h : (i.tightenUpper u).upper = some c) : i.upper = some c ∨ u = c := by
  unfold tightenUpper at h
  split_ifs at h
  · exact Or.inr (Option.some.inj h)
  · exact Or.inl h

@[simp] theorem upper_tightenLow : (i.tightenLow l).upper = i.upper := by
  unfold tightenLow
  split_ifs <;> rfl

@[simp] theorem low_tightenUpper : (i.tightenUpper u).low = i.low := by
  unfold tightenUpper
  split_ifs <;> rfl

theorem low_tighten {r : Restated} (h : (i.tighten r).low = some l) : i.low = some l ∨ r.lowLimit? = some l := by
  rw [tighten_eq] at h
  cases hl : r.lowLimit? with
  | none => cases hu : r.upperLimit? <;> simp_all
  | some c =>
    have h' : (i.tightenLow c).low = some l := by cases hu : r.upperLimit? <;> simp_all
    exact (low_tightenLow h').imp id (congrArg some)

theorem upper_tighten {r : Restated} (h : (i.tighten r).upper = some u) :
    i.upper = some u ∨ r.upperLimit? = some u := by
  rw [tighten_eq] at h
  cases hu : r.upperLimit? with
  | none => cases hl : r.lowLimit? <;> simp_all
  | some c =>
    have h' : ((r.lowLimit?.elim i i.tightenLow).tightenUpper c).upper = some u := by simpa [hu] using h
    rcases upper_tightenUpper h' with h' | rfl
    · refine Or.inl ?_
      cases hl : r.lowLimit? <;> simp_all
    · exact Or.inr rfl

/-! ## All constraints on a side -/

/-- **Intersections.** A fold contains the numbers that satisfy all constraints folded in. -/
theorem contains_foldl {rs : List Restated} : (rs.foldl tighten i).contains q = true ↔
    i.contains q = true ∧ ∀ r ∈ rs, r.holds q = true := by
  induction rs generalizing i with
  | nil => simp
  | cons r rest ih => rw [List.foldl_cons, ih, contains_tighten, List.forall_mem_cons, and_assoc]

theorem low_foldl {rs : List Restated} (h : (rs.foldl tighten i).low = some l) :
    i.low = some l ∨ ∃ r ∈ rs, r.lowLimit? = some l := by
  induction rs generalizing i with
  | nil => exact Or.inl h
  | cons r rest ih =>
    rcases ih h with h | ⟨r', hr', h⟩
    · rcases low_tighten h with h | h
      · exact Or.inl h
      · exact Or.inr ⟨r, List.mem_cons_self, h⟩
    · exact Or.inr ⟨r', List.mem_cons_of_mem _ hr', h⟩

theorem upper_foldl {rs : List Restated} (h : (rs.foldl tighten i).upper = some u) :
    i.upper = some u ∨ ∃ r ∈ rs, r.upperLimit? = some u := by
  induction rs generalizing i with
  | nil => exact Or.inl h
  | cons r rest ih =>
    rcases ih h with h | ⟨r', hr', h⟩
    · rcases upper_tighten h with h | h
      · exact Or.inl h
      · exact Or.inr ⟨r, List.mem_cons_self, h⟩
    · exact Or.inr ⟨r', List.mem_cons_of_mem _ hr', h⟩

end Interval

/-! ## Bounds of columns -/

/-- a low end as a bound of a column -/
def Limit.lowDelta (l : Limit) : Delta := ⟨l.value, if l.strict then 1 else 0⟩

/-- an upper end as a bound of a column -/
def Limit.upperDelta (u : Limit) : Delta := ⟨u.value, if u.strict then -1 else 0⟩

namespace Interval

/-- an interval as the bounds of a column -/
def span (i : Interval) : Span Delta := ⟨i.low.map Limit.lowDelta, i.upper.map Limit.upperDelta⟩

/-- **Bounds.** A number is within the bounds that an interval gives to a column exactly when it is inside the
interval. -/
theorem contains_span_iff {i : Interval} {q : Rat} : i.span.Contains (.ofRat q) ↔ i.contains q = true := by
  have hlow : ∀ l : Limit, l.lowDelta ≤ .ofRat q ↔ insideLow l q = true := by
    intro l
    rw [Delta.le_iff]
    unfold Limit.lowDelta Delta.ofRat insideLow
    cases l.strict with
    | false => simp [le_iff_lt_or_eq]
    | true => simp [not_le.2 (zero_lt_one (α := Rat))]
  have hupper : ∀ u : Limit, .ofRat q ≤ u.upperDelta ↔ insideUpper u q = true := by
    intro u
    rw [Delta.le_iff]
    unfold Limit.upperDelta Delta.ofRat insideUpper
    cases u.strict with
    | false => simp [le_iff_lt_or_eq]
    | true => simp [not_le.2 (neg_one_lt_zero (R := Rat))]
  rw [contains_iff]
  unfold Span.Contains span
  simp only [Option.map_eq_some_iff, forall_exists_index, and_imp, forall_apply_eq_imp_iff₂, hlow, hupper]

/-- **Empty intervals.** An interval is empty exactly when the bounds that it gives to a column are crossed. -/
theorem isEmpty_iff (i : Interval) : i.isEmpty = true ↔
    ∃ l u, i.low = some l ∧ i.upper = some u ∧ u.upperDelta < l.lowDelta := by
  unfold isEmpty
  cases hl : i.low with
  | none => simp
  | some l =>
    cases hu : i.upper with
    | none => simp
    | some u =>
      simp only [Option.some.injEq, Delta.lt_iff, Limit.lowDelta, Limit.upperDelta]
      rcases l with ⟨v, _ | _, w⟩ <;> rcases u with ⟨v', _ | _, w'⟩ <;> simp [@eq_comm Rat v']

theorem not_contains_of_isEmpty {i : Interval} (h : i.isEmpty = true) (q : Rat) : i.contains q = false := by
  obtain ⟨l, u, hl, hu, hlt⟩ := i.isEmpty_iff.1 h
  by_contra hq
  rw [Bool.not_eq_false, contains_iff] at hq
  have hlow := hq.1 l hl
  have hupper := hq.2 u hu
  unfold insideLow at hlow
  unfold insideUpper at hupper
  rcases l with ⟨v, _ | _, w⟩ <;> rcases u with ⟨v', _ | _, w'⟩ <;>
    simp [Delta.lt_iff, Limit.lowDelta, Limit.upperDelta] at hlow hupper hlt <;> grind

/-- an interval that is not empty contains a number: the middle between its ends, one beyond its only end, or zero -/
theorem exists_contains {i : Interval} (h : i.isEmpty = false) : ∃ q, i.contains q = true := by
  unfold isEmpty at h
  unfold contains
  cases hl : i.low with
  | none =>
    cases hu : i.upper with
    | none => exact ⟨0, by simp⟩
    | some u =>
      refine ⟨u.value - 1, ?_⟩
      simp [insideUpper]
  | some l =>
    cases hu : i.upper with
    | none =>
      refine ⟨l.value + 1, ?_⟩
      simp [insideLow]
    | some u =>
      refine ⟨(l.value + u.value) / 2, ?_⟩
      rw [hl, hu] at h
      rcases l with ⟨v, _ | _, w⟩ <;> rcases u with ⟨v', _ | _, w'⟩ <;> simp [insideLow, insideUpper] at h ⊢ <;> grind

theorem isEmpty_iff_forall (i : Interval) : i.isEmpty = true ↔ ∀ q, i.contains q = false := by
  refine ⟨not_contains_of_isEmpty, fun h => ?_⟩
  by_contra hne
  obtain ⟨q, hq⟩ := exists_contains (Bool.eq_false_iff.2 hne)
  rw [h q] at hq
  cases hq

theorem isEmpty_tighten {i : Interval} (h : i.isEmpty = true) (r : Restated) : (i.tighten r).isEmpty = true := by
  rw [isEmpty_iff_forall] at h ⊢
  intro q
  by_contra hq
  rw [Bool.not_eq_false, contains_tighten, h q] at hq
  cases hq.1

end Interval

end Halfspace
