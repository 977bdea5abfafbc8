/-
Registration keeps meaning.

Constraints, their restated forms, the store of sides, the intervals and the active variables are kept side by side and
change at different moments; a side may come from a variable or from a constraint. `Aligned s` says how they fit
together: which constraint is restated where and how, what each interval is made of, which variables are active, and
that constraints and intervals leave the same assignments.
- `isActive_register`: a constraint makes the variables active whose coefficients do not cancel in it;
- `Sparing.of_reachable`: nothing else is active;
- `Registered.all_hold_iff`: constraints and intervals;
- `registration_aligned`: all of it, for every reachable state.
-/
import Halfspace.Proofs.Answers

namespace Halfspace

open LinearForm

theorem Variables.activeWords_foldl {v : Variables} {form : LinearForm} :
    (form.foldl (fun v t => v.markActive t.var) v).activeWords = v.activeWords := by
  induction form generalizing v with
  | nil => rfl
  | cons t rest ih => exact ih

theorem Constraint.restate_none (c : Constraint) : c.restate none 1 = c.degenerate := by
  simp [restate, degenerate]

/-- **Restated constraints.** Which form a constraint has in a store is settled by its terms. -/
theorem Restates.eq_restate {store : FormStore} {c : Constraint} {r : Restated} (h : Restates store c r)
    (hsides : ∀ side ∈ store.sides, side.IsSide) (hdistinct : store.sides.Nodup) :
    r = c.restate (store.find? c.terms) c.terms.normalize.scale ∧
      ∀ i, r.side = some i → store.sides[i]? = some c.terms.normalize.form := by
  cases h with
  | degenerate cancels =>
    have hcollect : c.terms.collect = [] := (collect_eq_nil_iff c.terms).2 cancels
    have hnormal : c.terms.normalize = ⟨[], 1⟩ := by simp [LinearForm.normalize, hcollect]
    have hfind : store.find? c.terms = none := FormStore.find?_eq_none (by rw [hnormal])
    rw [hfind, hnormal]
    refine ⟨c.restate_none.symm, ?_⟩
    intro i hi
    cases hi
  | @about i side scale stored nonzero multiple =>
    have hside : side.IsSide := hsides side (List.mem_of_getElem? stored)
    have hnormal : c.terms.normalize = ⟨side, scale⟩ := hside.normalize_eq nonzero multiple
    have hfind : store.find? c.terms = some i := by
      apply (FormStore.find?_eq_some_iff hdistinct (by rw [hnormal]; exact hside.nonempty)).2
      rw [hnormal]
      exact stored
    rw [hfind, hnormal]
    refine ⟨rfl, ?_⟩
    intro j hj
    cases hj
    exact stored

namespace Solver

variable {s s' : Solver} {settings : Settings}

/-! ## What a constraint adds -/

theorem constraints_register (s : Solver) (terms : LinearForm) (relation : Relation) (rhs : Rat) :
    (s.register terms relation rhs).constraints = s.constraints ++ [⟨s.constraints.length, terms, relation, rhs⟩] := by
  unfold register
  dsimp only
  split <;> rfl

theorem names_register (s : Solver) (terms : LinearForm) (relation : Relation) (rhs : Rat) :
    (s.register terms relation rhs).vars.names = s.vars.names := by
  unfold register
  dsimp only
  split
  · rfl
  · exact Variables.names_foldl

theorem count_register (s : Solver) (terms : LinearForm) (relation : Relation) (rhs : Rat) :
    (s.register terms relation rhs).vars.count = s.vars.count :=
  congrArg List.length (names_register s terms relation rhs)

theorem activeWords_register (s : Solver) (terms : LinearForm) (relation : Relation) (rhs : Rat) :
    (s.register terms relation rhs).vars.activeWords = s.vars.activeWords := by
  unfold register
  dsimp only
  split
  · rfl
  · exact Variables.activeWords_foldl

/-- **Activity.** A constraint makes the variables active whose coefficients do not cancel in it. -/
theorem isActive_register (h : Registered s) (terms : LinearForm) (relation : Relation) (rhs : Rat) {x : Int} :
    (s.register terms relation rhs).vars.isActive x = true ↔
      terms.coefficient x ≠ 0 ∨ s.vars.isActive x = true := by
  rw [← exists_var_normalize_iff]
  unfold register
  by_cases hvanish : terms.normalize.form = []
  · simp [FormStore.place_of_vanishing hvanish, hvanish, registerDegenerate, forget]
  · obtain ⟨i, store, hplace, hext⟩ := FormStore.place_spec terms h.distinct hvanish
    have hgetD : store.sides.getD i [] = terms.normalize.form := by simp [List.getD_eq_getElem?_getD, hext.stored]
    simp only [hplace, registerOn, forget, hgetD, Variables.isActive_foldl, @eq_comm _ x]

/-! ## Active variables -/

/-- a variable is active exactly when its coefficients do not cancel in some constraint, and no word is -/
structure Sparing (s : Solver) : Prop where
  words : s.vars.activeWords = []
  active_iff : ∀ x : Int, s.vars.isActive x = true ↔ ∃ c ∈ s.constraints, c.terms.coefficient x ≠ 0

theorem sparing_new (settings : Settings) : Sparing (new settings) where
  words := rfl
  active_iff x := by simp [new, Variables.isActive]

namespace Sparing

theorem register (hs : Registered s) (h : Sparing s) (terms : LinearForm) (relation : Relation) (rhs : Rat) :
    Sparing (s.register terms relation rhs) where
  words := (activeWords_register s terms relation rhs).trans h.words
  active_iff x := by
    rw [isActive_register hs, h.active_iff, constraints_register]
    simp only [List.mem_append, List.mem_singleton, or_and_right, exists_or, exists_eq_left]
    exact or_comm

theorem concludes (h : Sparing s) (hs' : Concludes s s') : Sparing s' := by
  cases hs' <;> exact ⟨h.words, h.active_iff⟩

theorem solveBy (hs : Registered s) (h : Sparing s) (pass : Pass) : Sparing (s.solveBy pass).solver := by
  refine solveBy_keeps hs pass (motive := Sparing) h ?_
  intro s' hconcludes _
  have hkept := h.concludes hconcludes
  exact ⟨hkept.words, hkept.active_iff⟩

/-- **One call.** -/
theorem follows (hs : Registered s) (h : Sparing s) (hs' : Follows s s') : Sparing s' := by
  cases hs' with
  | same => exact h
  | addVar name => exact ⟨h.words, h.active_iff⟩
  | addConstraint accepted =>
    obtain ⟨form, rel, q, -, rfl⟩ := addConstraint_ok accepted
    exact h.register hs form rel q
  | solve pass => exact h.solveBy hs pass
  | counted pivots => exact ⟨h.words, h.active_iff⟩
  | tellModel told =>
    obtain ⟨-, -, rfl⟩ := tellModel_ok told
    exact ⟨h.words, h.active_iff⟩

/-- **Any calls and exact passes.** -/
theorem of_reachable (h : Reachable settings s) : Sparing s := by
  induction h with
  | new => exact sparing_new settings
  | call c h ih => exact ih.follows (Rightful.of_reachable h).registered (follows_after _ c)
  | exactPass resting h ih => exact ih.concludes (solveOn_concludes (Rightful.of_reachable h).registered resting).2

theorem varIsActive_iff (h : Sparing s) (x : VarRef) :
    s.varIsActive x = true ↔ ∃ n, x = .id n ∧ ∃ c ∈ s.constraints, c.terms.coefficient n ≠ 0 := by
  cases x with
  | id n => simpa [varIsActive, Variables.isMarked] using h.active_iff n
  | word w => simp [varIsActive, Variables.isMarked, h.words]

end Sparing

/-! ## Constraints and intervals -/

/-- **Constraints and intervals.** All constraints hold exactly when the value of every side is in its interval and
those are true whose coefficients all cancel. -/
theorem Registered.all_hold_iff (h : Registered s) (v : Assignment) :
    (∀ c ∈ s.constraints, c.holds v = true) ↔
      (∀ (i : Nat) (side : LinearForm) (interval : Interval), s.store.sides[i]? = some side →
        s.intervals[i]? = some interval → interval.contains (side.eval v) = true) ∧
      ∀ c ∈ s.constraints, c.terms.collect = [] → c.relation.holds 0 c.rhs = true := by
  have hcancelled : ∀ c : Constraint, c.terms.collect = [] → c.holds v = c.relation.holds 0 c.rhs := by
    intro c hcancels
    rw [Constraint.holds, (collect_eq_nil_iff c.terms).1 hcancels v]
  constructor
  · intro hall
    refine ⟨?_, fun c hc hcancels => hcancelled c hcancels ▸ hall c hc⟩
    intro i side interval hside hinterval
    obtain ⟨-, rfl⟩ := h.eq_ofSide hinterval
    rw [Interval.contains_ofSide_iff]
    intro r hr hri
    obtain ⟨k, c, hc, -, -, hrestates⟩ := h.exists_constraint hr
    have hholds := hrestates.holds_iff v
    rw [hri, FormStore.valueOf_some hside] at hholds
    exact hholds ▸ hall c (List.mem_of_getElem? hc)
  · rintro ⟨hinside, htrue⟩ c hc
    by_cases hcancels : c.terms.collect = []
    · exact (hcancelled c hcancels).trans (htrue c hc hcancels)
    · obtain ⟨k, hk⟩ := List.mem_iff_getElem?.1 hc
      obtain ⟨r, hr, -, hrestates⟩ := h.exists_restated hk
      obtain ⟨i, hri⟩ := hrestates.exists_side h.normal hcancels
      have hlt : i < s.store.size := hrestates.side_lt hri
      have hinterval : s.intervals[i]? = some (Interval.ofSide s.restated i) := by simp [h.intervals, hlt]
      have hcontains := hinside i _ _ (FormStore.getElem?_eq_getD hlt) hinterval
      rw [hrestates.holds_iff, hri, FormStore.valueOf_some (FormStore.getElem?_eq_getD hlt)]
      exact Interval.contains_ofSide_iff.1 hcontains r (List.mem_of_getElem? hr) hri

/-! ## Alignment -/

def Entry (s : Solver) (k : Nat) (c : Constraint) (r : Restated) : Prop :=
  s.constraints[k]? = some c ∧ s.restated[k]? = some r

/-- the parts of a state fit together -/
structure Aligned (s : Solver) : Prop where
  paired : s.restated.length = s.constraints.length
  numbered : ∀ k c r, s.Entry k c r → c.id = k ∧ r.constraint = k
  /-- a constraint is restated about the side of its terms, by their scale -/
  restated : ∀ k c r, s.Entry k c r → r = c.restate (s.store.find? c.terms) c.terms.normalize.scale
  placed : ∀ k c r i, s.Entry k c r → r.side = some i → s.store.sides[i]? = some c.terms.normalize.form
  /-- without a side exactly when all its coefficients cancel -/
  unplaced_iff : ∀ k c r, s.Entry k c r → (r.side = none ↔ ∀ x, c.terms.coefficient x = 0)
  covered : s.intervals.length = s.store.size
  /-- an interval is the fold of the constraints restated about its side, in the order of their ids -/
  folded : ∀ i, i < s.store.size →
    s.intervals[i]? = some ((s.restated.filter fun r => r.side = some i).foldl Interval.tighten Interval.whole)
  active_iff : ∀ x, s.varIsActive x = true ↔ ∃ n, x = .id n ∧ ∃ c ∈ s.constraints, c.terms.coefficient n ≠ 0
  /-- a constraint that does not cancel says of its terms what its restated form says of the side -/
  holds_iff : ∀ k c r, s.Entry k c r → (∃ x, c.terms.coefficient x ≠ 0) →
    ∃ i side, r.side = some i ∧ s.store.sides[i]? = some side ∧ ∀ v, c.holds v = r.holds (side.eval v)
  all_hold_iff : ∀ v, (∀ c ∈ s.constraints, c.holds v = true) ↔
    (∀ (i : Nat) (side : LinearForm) (interval : Interval), s.store.sides[i]? = some side →
      s.intervals[i]? = some interval → interval.contains (side.eval v) = true) ∧
    ∀ c ∈ s.constraints, (∀ x, c.terms.coefficient x = 0) → c.relation.holds 0 c.rhs = true

theorem Registered.restates_of_entry (h : Registered s) {k : Nat} {c : Constraint} {r : Restated}
    (he : s.Entry k c r) : c.id = k ∧ Restates s.store c r := h.restates k c r he.1 he.2

theorem Registered.aligned (h : Registered s) (hs : Sparing s) : Aligned s where
  paired := h.paired
  numbered k c r he := by
    obtain ⟨hid, hrestates⟩ := h.restates_of_entry he
    exact ⟨hid, hrestates.constraint_eq.trans hid⟩
  restated k c r he := ((h.restates_of_entry he).2.eq_restate h.normal h.distinct).1
  placed k c r i he := ((h.restates_of_entry he).2.eq_restate h.normal h.distinct).2 i
  unplaced_iff k c r he := by
    rw [(h.restates_of_entry he).2.side_eq_none_iff h.normal, collect_eq_nil_iff_coefficient]
  covered := by simp [h.intervals]
  folded i hi := by simp only [h.intervals, List.getElem?_map, List.getElem?_range hi, Option.map_some, Interval.ofSide]
  active_iff := hs.varIsActive_iff
  holds_iff k c r he := by
    rintro ⟨x, hx⟩
    obtain ⟨-, hrestates⟩ := h.restates_of_entry he
    have hsurvives : c.terms.collect ≠ [] := fun hcancels => hx ((collect_eq_nil_iff_coefficient c.terms).1 hcancels x)
    obtain ⟨i, hi⟩ := hrestates.exists_side h.normal hsurvives
    have hstored := FormStore.getElem?_eq_getD (hrestates.side_lt hi)
    refine ⟨i, _, hi, hstored, ?_⟩
    intro v
    rw [hrestates.holds_iff, hi, FormStore.valueOf_some hstored]
  all_hold_iff v := by
    simp only [← collect_eq_nil_iff_coefficient]
    exact h.all_hold_iff v

/-- **Registration keeps meaning.** In every reachable state each constraint has its restated form about the side of its
own terms, each interval is made of the constraints on its side, the variables in use are the active ones, and the
intervals leave the same assignments as the constraints. -/
theorem registration_aligned (h : Reachable settings s) : Aligned s :=
  (Rightful.of_reachable h).registered.aligned (Sparing.of_reachable h)

/-- `2y - x ≤ 6`, which is flipped, and then the tighter `2x - 4y > -8`; `x - x + z - z ≤ 1` cancels, a constraint on no
variable is refused, and the last variable comes after a model was told -/
def knotted : List Call :=
  [.addVar "x", .addVar "y", .addConstraint [(.number 2, .id 1), (.number (-1), .id 0)] "<=" (.number 6),
    .addConstraint [(.number 1, .id 5)] "=" (.number 0), .addVar "z", .solve fun _ => .ok {}, .tellModel,
    .addConstraint [(.number 2, .id 0), (.number (-4), .id 1)] ">" (.number (-8)),
    .addConstraint [(.number 1, .id 0), (.number (-1), .id 0), (.number 1, .id 2), (.number (-1), .id 2)] "<="
      (.number 1), .addVar "w"]

/-- two constraints share side `x - 2y`, of which only the tighter bound is kept, and `z` stays inactive -/
theorem knotted_is_aligned : Aligned ((new {}).runCalls knotted) ∧
    ((new {}).runCalls knotted).restated =
      [⟨0, some 2, -1, .ge, -6⟩, ⟨1, some 2, 2, .gt, -4⟩, ⟨2, none, 1, .le, 1⟩] ∧
    ((new {}).runCalls knotted).interval 2 = .ok { low := some ⟨-4, true, 1⟩ } ∧
    ((new {}).runCalls knotted).vars.active = [0, 1] :=
  ⟨registration_aligned (reachable_runCalls {} knotted), by decide +kernel, by decide +kernel, by decide +kernel⟩

end Solver

end Halfspace
