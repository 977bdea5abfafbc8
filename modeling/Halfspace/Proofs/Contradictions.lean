/-
Contradictions that registration finds.

Registration looks at one left side at a time. It finds a contradiction exactly when the constraints of one normal form
cannot hold together, or one whose coefficients cancel is false; it records the first that it finds, as a side or as a
constraint, and keeps this record for good. Which constraints are there decides, and not in which order they came.
- `Registered.clashed_iff`: when a contradiction is recorded;
- `Later.record_eq`: once there is a record, no call changes it;
- `clashed_eq_of_perm`: the order does not matter;
- `contradictions_detected`: all of it, and what checking answers, for every reachable state.
An exact pass asked for directly does not look at the record. After a completed answer it may leave a satisfiable
verdict that the next check repeats (`overruled_is_satisfiable`); where none was asked for, a check answers unsatisfiable.
-/
import Halfspace.Proofs.Alignment
import Halfspace.Proofs.Models

namespace Halfspace

open LinearForm

/-! ## Constraints of one normal form -/

/-- no assignment satisfies all the constraints of a normal form -/
def Conflicting (cs : List Constraint) (form : LinearForm) : Prop :=
  ∀ v : Assignment, ∃ c ∈ cs, c.terms.normalize.form = form ∧ c.holds v = false

def Constraint.Absurd (c : Constraint) : Prop :=
  (∀ x, c.terms.coefficient x = 0) ∧ c.relation.holds 0 c.rhs = false

def Constraint.unnumbered (c : Constraint) : Constraint := { c with id := 0 }

theorem conflicting_unnumbered (cs : List Constraint) (form : LinearForm) :
    Conflicting (cs.map Constraint.unnumbered) form ↔ Conflicting cs form := by
  unfold Conflicting
  simp only [List.mem_map, exists_exists_and_eq_and]
  rfl

theorem exists_absurd_unnumbered {cs : List Constraint} :
    (∃ c ∈ cs.map Constraint.unnumbered, c.Absurd) ↔ ∃ c ∈ cs, c.Absurd := by
  simp only [List.mem_map, exists_exists_and_eq_and]
  rfl

theorem Conflicting.perm {cs cs' : List Constraint} {form : LinearForm} (h : cs.Perm cs') (hc : Conflicting cs form) :
    Conflicting cs' form := by
  intro v
  obtain ⟨c, hmem, hfails⟩ := hc v
  exact ⟨c, h.mem_iff.1 hmem, hfails⟩

namespace Solver

variable {s s' t : Solver} {settings settings' : Settings}

namespace Registered

theorem side_eq (h : Registered s) {c : Constraint} {r : Restated} (hrestates : Restates s.store c r) {i : Nat}
    (hi : s.store.sides[i]? = some c.terms.normalize.form) : r.side = some i := by
  have hne : c.terms.normalize.form ≠ [] := (h.normal _ (List.mem_of_getElem? hi)).nonempty
  rw [(hrestates.eq_restate h.normal h.distinct).1]
  exact (FormStore.find?_eq_some_iff h.distinct hne).2 hi

/-- **Empty intervals.** The interval of a side is empty exactly when the constraints of its form cannot hold
together. -/
theorem isEmpty_iff_conflicting (h : Registered s) {i : Nat} {form : LinearForm} (hi : s.store.sides[i]? = some form) :
    (Interval.ofSide s.restated i).isEmpty = true ↔ Conflicting s.constraints form := by
  rw [Interval.isEmpty_iff_forall]
  constructor
  · intro hempty v
    by_contra hholds
    push Not at hholds
    have hinside : (Interval.ofSide s.restated i).contains (form.eval v) = true := by
      rw [Interval.contains_ofSide_iff]
      intro r hr hside
      obtain ⟨k, c, hc, -, -, hrestates⟩ := h.exists_constraint hr
      have hform : c.terms.normalize.form = form := by
        have hstored := (hrestates.eq_restate h.normal h.distinct).2 i hside
        exact Option.some.inj (hstored.symm.trans hi)
      have hc' := hholds c (List.mem_of_getElem? hc) hform
      rwa [hrestates.holds_iff, hside, FormStore.valueOf_some hi, ne_eq, Bool.not_eq_false] at hc'
    rw [hempty] at hinside
    cases hinside
  · intro hconflict q
    by_contra hinside
    rw [Bool.not_eq_false] at hinside
    obtain ⟨v, rfl⟩ := (h.normal form (List.mem_of_getElem? hi)).exists_eval q
    obtain ⟨c, hc, hform, hfails⟩ := hconflict v
    obtain ⟨k, hk⟩ := List.mem_iff_getElem?.1 hc
    obtain ⟨r, hr, -, hrestates⟩ := h.exists_restated hk
    have hside : r.side = some i := h.side_eq hrestates (hform ▸ hi)
    have hholds := Interval.contains_ofSide_iff.1 hinside r (List.mem_of_getElem? hr) hside
    rw [hrestates.holds_iff, hside, FormStore.valueOf_some hi, hholds] at hfails
    cases hfails

/-- **Detection.** A contradiction is recorded exactly when a constraint whose coefficients cancel is false, or the
constraints of some normal form cannot hold together. -/
theorem clashed_iff (h : Registered s) : s.clashed = true ↔
    (∃ c ∈ s.constraints, c.Absurd) ∨ ∃ form, form ≠ [] ∧ Conflicting s.constraints form := by
  constructor
  · intro hclashed
    rw [clashed_eq, Option.isSome_iff_exists] at hclashed
    obtain ⟨clash, hclash⟩ := hclashed
    have hsound := h.clash_sound clash hclash
    cases clash with
    | side i =>
      obtain ⟨interval, hinterval, hempty⟩ := hsound
      obtain ⟨hlt, rfl⟩ := h.eq_ofSide hinterval
      have hi := FormStore.getElem?_eq_getD hlt
      right
      exact ⟨_, (h.normal _ (List.mem_of_getElem? hi)).nonempty, (h.isEmpty_iff_conflicting hi).1 hempty⟩
    | constraint id =>
      obtain ⟨c, hc, -, hcancels, hfalse⟩ := hsound
      left
      refine ⟨c, List.mem_of_getElem? hc, ?_, hfalse⟩
      rw [← collect_eq_nil_iff_coefficient]
      exact (collect_eq_nil_iff c.terms).2 hcancels
  · intro hcontradiction
    by_contra hclashed
    obtain ⟨hroom, htrue⟩ := h.clash_complete (clash_eq_none_iff.2 (Bool.eq_false_iff.2 hclashed))
    rcases hcontradiction with ⟨c, hc, hcancels, hfalse⟩ | ⟨form, hne, hconflict⟩
    · obtain ⟨k, hk⟩ := List.mem_iff_getElem?.1 hc
      obtain ⟨r, hr, -, hrestates⟩ := h.exists_restated hk
      have hcollect : c.terms.collect = [] := (collect_eq_nil_iff_coefficient c.terms).2 hcancels
      have hside : r.side = none := (hrestates.side_eq_none_iff h.normal).2 hcollect
      have hholds := hrestates.holds_iff 0
      rw [Constraint.holds, (collect_eq_nil_iff c.terms).1 hcollect, hfalse, hside] at hholds
      have hr' := htrue r (List.mem_of_getElem? hr) hside
      exact absurd (hholds.trans hr') (by simp)
    · -- some constraint has this form, so that it is stored
      obtain ⟨c, hc, rfl, -⟩ := hconflict 0
      obtain ⟨k, hk⟩ := List.mem_iff_getElem?.1 hc
      obtain ⟨r, -, -, hrestates⟩ := h.exists_restated hk
      have hsurvives : c.terms.collect ≠ [] := mt (normalize_form_eq_nil_iff c.terms).2 hne
      obtain ⟨i, hi⟩ := hrestates.exists_side h.normal hsurvives
      have hstored := (hrestates.eq_restate h.normal h.distinct).2 i hi
      have hempty := (h.isEmpty_iff_conflicting hstored).2 hconflict
      rw [hroom i] at hempty
      cases hempty

end Registered

/-- the order of the constraints does not matter to what is detected -/
theorem clashed_eq_of_perm (h : Registered s) (h' : Registered s')
    (hperm : (s.constraints.map Constraint.unnumbered).Perm (s'.constraints.map Constraint.unnumbered)) :
    s'.clashed = s.clashed := by
  rw [Bool.eq_iff_iff, h.clashed_iff, h'.clashed_iff]
  apply or_congr
  · calc (∃ c ∈ s'.constraints, c.Absurd)
      _ ↔ ∃ c ∈ s'.constraints.map Constraint.unnumbered, c.Absurd := exists_absurd_unnumbered.symm
      _ ↔ ∃ c ∈ s.constraints.map Constraint.unnumbered, c.Absurd := by simp only [hperm.mem_iff]
      _ ↔ ∃ c ∈ s.constraints, c.Absurd := exists_absurd_unnumbered
  · apply exists_congr
    intro form
    apply and_congr_right
    intro _
    rw [← conflicting_unnumbered s'.constraints, ← conflicting_unnumbered s.constraints]
    exact ⟨.perm hperm.symm, .perm hperm⟩

/-! ## The record -/

def record (s : Solver) : Option Nat × Option Nat := (s.emptySide, s.falseConstraint)

theorem clashed_of_record (h : s'.record = s.record) : s'.clashed = s.clashed :=
  congrArg (fun r : Option Nat × Option Nat => r.1.isSome || r.2.isSome) h

theorem record_register (h : s.clashed = true) (terms : LinearForm) (relation : Relation) (rhs : Rat) :
    (s.register terms relation rhs).record = s.record := by
  unfold register
  dsimp only
  split <;> simp [record, registerDegenerate, registerOn, forget, h]

theorem Concludes.record_eq (h : Concludes s s') : s'.record = s.record := by cases h <;> rfl

theorem record_solveBy (h : Registered s) (pass : Pass) : (s.solveBy pass).solver.record = s.record :=
  solveBy_keeps h pass (motive := fun s' => s'.record = s.record) rfl fun _ hconcludes _ => hconcludes.record_eq

/-- **One call** records at most what an accepted constraint brings. -/
theorem follows_record (hs : Registered s) (h : Follows s s') :
    s'.record = s.record ∨ ∃ terms relation rhs, s' = s.register terms relation rhs := by
  cases h with
  | same => exact Or.inl rfl
  | addVar name => exact Or.inl rfl
  | addConstraint accepted =>
    obtain ⟨form, rel, q, -, rfl⟩ := addConstraint_ok accepted
    exact Or.inr ⟨form, rel, q, rfl⟩
  | solve pass => exact Or.inl (record_solveBy hs pass)
  | counted pivots => exact Or.inl rfl
  | tellModel told =>
    obtain ⟨-, -, rfl⟩ := tellModel_ok told
    exact Or.inl rfl

theorem later_runCalls (s : Solver) (calls : List Call) : Later s (s.runCalls calls) := by
  induction calls using List.reverseRecOn with
  | nil => exact .same
  | append_singleton calls c ih =>
    rw [runCalls_concat]
    exact .call c ih

theorem Later.reachable (hs : Reachable settings s) (h : Later s t) : Reachable settings t := by
  induction h with
  | same => exact hs
  | call c _ ih => exact .call c ih
  | exactPass resting _ ih => exact .exactPass resting ih

/-- **Any calls.** A record is kept for good. -/
theorem Later.record_eq (hs : Reachable settings s) (h : Later s t) (hclashed : s.clashed = true) :
    t.record = s.record := by
  induction h with
  | same => rfl
  | @call t c hlater ih =>
    have hregistered := (Rightful.of_reachable (hlater.reachable hs)).registered
    rcases follows_record hregistered (follows_after t c) with hkept | ⟨terms, relation, rhs, hregister⟩
    · exact hkept.trans ih
    · rw [hregister, record_register ((clashed_of_record ih).trans hclashed), ih]
  | @exactPass t resting hlater ih =>
    have hregistered := (Rightful.of_reachable (hlater.reachable hs)).registered
    exact (solveOn_concludes hregistered resting).2.record_eq.trans ih

/-! ## One record at most -/

def Single (s : Solver) : Prop := s.emptySide = none ∨ s.falseConstraint = none

theorem Single.of_record (h : Single s) (hrecord : s'.record = s.record) : Single s' := by
  obtain ⟨hside, hconstraint⟩ := Prod.mk.inj hrecord
  unfold Single
  rw [hside, hconstraint]
  exact h

theorem Single.register (h : Single s) (terms : LinearForm) (relation : Relation) (rhs : Rat) :
    Single (s.register terms relation rhs) := by
  by_cases hclashed : s.clashed = true
  · exact h.of_record (record_register hclashed terms relation rhs)
  · -- with nothing recorded before, a constraint brings a record of one kind
    rw [Bool.not_eq_true, clashed_eq_false_iff] at hclashed
    unfold Solver.register
    dsimp only
    split
    · exact Or.inl hclashed.1
    · exact Or.inr hclashed.2

theorem Single.of_reachable (h : Reachable settings s) : Single s := by
  induction h with
  | new => exact Or.inl rfl
  | @call s c h ih =>
    rcases follows_record (Rightful.of_reachable h).registered (follows_after s c) with hkept | ⟨_, _, _, hregister⟩
    · exact ih.of_record hkept
    · exact hregister ▸ ih.register _ _ _
  | @exactPass s resting h ih =>
    exact ih.of_record (solveOn_concludes (Rightful.of_reachable h).registered resting).2.record_eq

/-- what is recorded is a contradiction -/
structure Contradictory (s : Solver) : Prop where
  side : ∀ i, s.emptySide = some i → ∃ form interval, s.store.sides[i]? = some form ∧
    s.intervals[i]? = some interval ∧ interval.isEmpty = true ∧ Conflicting s.constraints form
  constraint : ∀ k, s.falseConstraint = some k → ∃ c, s.constraints[k]? = some c ∧ c.Absurd

theorem Contradictory.of_reachable (h : Reachable settings s) : Contradictory s := by
  have hs := (Rightful.of_reachable h).registered
  constructor
  · intro i hi
    have hfalse : s.falseConstraint = none := by
      rcases Single.of_reachable h with hnone | hnone
      · rw [hi] at hnone
        cases hnone
      · exact hnone
    have hclash : s.clash = some (.side i) := by simp only [clash, hfalse, hi]
    obtain ⟨interval, hinterval, hempty⟩ := hs.clash_sound _ hclash
    obtain ⟨hlt, rfl⟩ := hs.eq_ofSide hinterval
    have hstored := FormStore.getElem?_eq_getD hlt
    exact ⟨_, _, hstored, hinterval, hempty, (hs.isEmpty_iff_conflicting hstored).1 hempty⟩
  · intro k hk
    have hclash : s.clash = some (.constraint k) := by simp only [clash, hk]
    obtain ⟨c, hc, -, hcancels, hfalse⟩ := hs.clash_sound _ hclash
    exact ⟨c, hc, (collect_eq_nil_iff_coefficient c.terms).1 ((collect_eq_nil_iff c.terms).2 hcancels), hfalse⟩

/-! ## Checking -/

theorem pivots_settle (s : Solver) (evidence : Evidence) : (s.settle evidence).solver.pivots = s.pivots := by
  unfold settle
  split_ifs <;> rfl

theorem pivots_solveClash (s : Solver) (clash : Clash) : (s.solveClash clash).solver.pivots = s.pivots := by
  unfold solveClash
  cases s.clashEvidence clash with
  | error fault => rfl
  | ok evidence => exact pivots_settle s evidence

/-- **Checks.** Where a contradiction is recorded, a check does not fail and counts no exchanges. It answers
unsatisfiable, unless it repeats another answer that was given before. -/
theorem solveBy_of_clashed (h : Registered s) (hclashed : s.clashed = true) (pass : Pass) :
    (s.solveBy pass).fault = none ∧ (s.solveBy pass).solver.pivots = s.pivots ∧
      ((s.solveBy pass).solver.verdict = .unsatisfiable ↔ (s.solved = true → s.verdict = .unsatisfiable)) := by
  rw [clashed_eq, Option.isSome_iff_exists] at hclashed
  obtain ⟨clash, hclash⟩ := hclashed
  unfold solveBy
  split_ifs with hsolved
  · simp [hsolved]
  · obtain ⟨hfault, -, hverdict⟩ := solveClash_concludes h hclash
    simp only [hclash, completed_of_fault_eq_none hfault, pivots_solveClash]
    exact ⟨hfault, trivial, fun _ hsolved' => absurd hsolved' hsolved, fun _ => hverdict⟩

/-- a complete answer is unsatisfiable where a contradiction is recorded -/
def Minds (s : Solver) : Prop := s.solved = true → s.clashed = true → s.verdict = .unsatisfiable

theorem Minds.follows (hs : Registered s) (h : Minds s) (hs' : Follows s s') : Minds s' := by
  cases hs' with
  | same => exact h
  | addVar name => exact h
  | addConstraint accepted =>
    obtain ⟨s', rfl⟩ := addConstraint_eq_forget accepted
    intro hsolved
    cases hsolved
  | solve pass =>
    refine solveBy_keeps hs pass (motive := Minds) h ?_
    intro s' hconcludes hclash _ hclashed
    rcases hclash with hnone | hverdict
    · have hclashed' : s'.clashed = true := hclashed
      rw [clashed_of_record hconcludes.record_eq, clash_eq_none_iff.1 hnone] at hclashed'
      cases hclashed'
    · exact hverdict
  | counted pivots => exact h
  | tellModel told =>
    obtain ⟨-, -, rfl⟩ := tellModel_ok told
    exact h

theorem Minds.runCalls (hs : Rightful s) (h : Minds s) (calls : List Call) : Minds (s.runCalls calls) := by
  induction calls generalizing s with
  | nil => exact h
  | cons c rest ih => exact ih (hs.follows (follows_after s c)) (h.follows hs.registered (follows_after s c))

/-! ## Contradictions of reachable states -/

/-- what a state knows of the contradictions in one left side, or in none -/
structure Detects (s : Solver) : Prop where
  clashed_iff : s.clashed = true ↔ (∃ c ∈ s.constraints, c.Absurd) ∨ ∃ form, form ≠ [] ∧ Conflicting s.constraints form
  single : s.emptySide = none ∨ s.falseConstraint = none
  /-- a record stays as it is, and a contradiction -/
  kept : ∀ t, Later s t → s.clashed = true →
    t.clashed = true ∧ t.emptySide = s.emptySide ∧ t.falseConstraint = s.falseConstraint ∧ Contradictory t
  /-- the same constraints in another order, under any settings, are detected alike -/
  unordered : ∀ settings s', Reachable settings s' →
    (s.constraints.map Constraint.unnumbered).Perm (s'.constraints.map Constraint.unnumbered) → s'.clashed = s.clashed
  /-- a check runs no engine, and answers unsatisfiable or what was answered before -/
  check : ∀ pass, s.clashed = true → (s.solveBy pass).fault = none ∧ (s.solveBy pass).solver.pivots = s.pivots ∧
    ((s.solveBy pass).solver.verdict = .unsatisfiable ↔ (s.solved = true → s.verdict = .unsatisfiable))
  /-- from a state without a complete answer, it answers unsatisfiable after any calls -/
  later_check : ∀ calls pass, s.solved = false → (s.runCalls calls).clashed = true →
    ((s.runCalls calls).solveBy pass).solver.verdict = .unsatisfiable

/-- **Contradictions in one column.** Registration finds them all and no others, whatever the order of the constraints.
It records one, and for good; and a check that finds it recorded answers unsatisfiable without an engine, unless an
exact pass that was asked for directly has overruled a complete answer. -/
theorem contradictions_detected (h : Reachable settings s) : Detects s := by
  have hright := Rightful.of_reachable h
  constructor
  case clashed_iff => exact hright.registered.clashed_iff
  case single => exact Single.of_reachable h
  case kept =>
    intro t hlater hclashed
    have hrecord := hlater.record_eq h hclashed
    obtain ⟨hside, hconstraint⟩ := Prod.mk.inj hrecord
    exact ⟨(clashed_of_record hrecord).trans hclashed, hside, hconstraint, Contradictory.of_reachable (hlater.reachable h)⟩
  case unordered =>
    intro settings' s' h' hperm
    exact clashed_eq_of_perm hright.registered (Rightful.of_reachable h').registered hperm
  case check => exact fun pass hclashed => solveBy_of_clashed hright.registered hclashed pass
  case later_check =>
    intro calls pass hsolved hclashed
    have hminds : Minds s := by
      intro hsolved'
      rw [hsolved] at hsolved'
      cases hsolved'
    have hright' := Rightful.of_reachable ((later_runCalls s calls).reachable h)
    rw [(solveBy_of_clashed hright'.registered hclashed pass).2.2]
    intro hsolved'
    exact hminds.runCalls hright calls hsolved' hclashed

/-- `x + y ≤ 4` and `-2x - 2y ≤ -8`, checked; then `3x + 3y < 12`, and after it the false `0x < 0` -/
def wedged : List Call :=
  [.addVar "x", .addVar "y", .addConstraint [(.number 1, .id 0), (.number 1, .id 1)] "<=" (.number 4),
    .addConstraint [(.number (-2), .id 0), (.number (-2), .id 1)] "<=" (.number (-8)), .solve fun _ => .ok {},
    .addConstraint [(.number 3, .id 0), (.number 3, .id 1)] "<" (.number 12),
    .addConstraint [(.number 0, .id 0)] "<" (.number 0)]

/-- the side of `x + y` is recorded, and the false constraint after it is not -/
theorem wedged_is_detected : Detects ((new {}).runCalls wedged) ∧
    ((new {}).runCalls wedged).emptySide = some 2 ∧ ((new {}).runCalls wedged).falseConstraint = none :=
  ⟨contradictions_detected (reachable_runCalls {} wedged), by decide +kernel, by decide +kernel⟩

/-- `x > 1` and `2x < 2`, checked, and then an exact pass that is asked for directly -/
def overruled : Solver :=
  (((new {}).runCalls [.addVar "x", .addConstraint [(.number 1, .id 0)] ">" (.number 1),
    .addConstraint [(.number 2, .id 0)] "<" (.number 2), .solve fun _ => .ok {}]).solveOn .empty).solver

/-- the contradiction is recorded, and yet every further check answers satisfiable -/
theorem overruled_is_satisfiable : Reachable {} overruled ∧ overruled.clashed = true ∧
    ∀ pass, (overruled.solveBy pass).solver.verdict = .satisfiable := by
  have hsolved : overruled.solved = true := by decide +kernel
  refine ⟨.exactPass .empty (reachable_runCalls {} _), by decide +kernel, ?_⟩
  intro pass
  unfold solveBy
  rw [if_pos hsolved]
  decide +kernel

end Solver

end Halfspace
