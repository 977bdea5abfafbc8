/-
What registration establishes.

`Registered s` relates the parts of a solver's state: every variable has a side, every constraint is restated about the
side that its terms are a multiple of, the interval of a side is the fold of the constraints restated about it, the
variables in use are active, and a recorded contradiction is one.
- `Restates.holds_iff`: a constraint holds exactly when its restated form holds for the value of its side;
- `Restates.side_eq_none_iff`: it is about a side unless all its coefficients cancel;
- `registered_new`, `registered_addVar`, `registered_register`: registration keeps all of it;
- `Registered.congr`: it speaks of variables and constraints only, so that answers do not touch it.
-/
import Halfspace.Proofs.Certificate
import Halfspace.Proofs.Registry.Intervals
import Halfspace.Proofs.Registry.Sides
import Halfspace.Solver.State

namespace Halfspace

theorem getElem?_concat_iff {α : Type} {xs : List α} {a b : α} {k : Nat} :
    (xs ++ [a])[k]? = some b ↔ xs[k]? = some b ∨ (k = xs.length ∧ a = b) := by
  rcases lt_trichotomy k xs.length with h | rfl | h
  · simp [List.getElem?_append_left h, h.ne]
  · simp
  · have hnone : xs[k]? = none := List.getElem?_eq_none h.le
    have hnone' : (xs ++ [a])[k]? = none := List.getElem?_eq_none (by simpa using h)
    simp [hnone, hnone', h.ne']

/-! ## Active variables -/

namespace Variables

theorem mem_insertId {x y : Int} {ids : List Int} : y ∈ insertId x ids ↔ y = x ∨ y ∈ ids := by
  induction ids with
  | nil => simp [insertId]
  | cons z rest ih =>
    simp only [insertId]
    split_ifs with h1 h2
    · simp
    · subst h2
      simp
    · simp only [List.mem_cons, ih]
      tauto

theorem isActive_markActive {v : Variables} {x y : Int} :
    (v.markActive x).isActive y = true ↔ y = x ∨ v.isActive y = true := by
  simp [markActive, isActive, mem_insertId]

theorem isActive_foldl {v : Variables} {form : LinearForm} {y : Int} :
    (form.foldl (fun v t => v.markActive t.var) v).isActive y = true ↔
      (∃ t ∈ form, y = t.var) ∨ v.isActive y = true := by
  induction form generalizing v with
  | nil => simp
  | cons t rest ih =>
    rw [List.foldl_cons, ih, isActive_markActive]
    simp only [List.mem_cons, exists_eq_or_imp]
    exact or_left_comm.trans or_assoc.symm

theorem names_foldl {v : Variables} {form : LinearForm} :
    (form.foldl (fun v t => v.markActive t.var) v).names = v.names := by
  induction form generalizing v with
  | nil => rfl
  | cons t rest ih => exact ih

theorem count_foldl {v : Variables} {form : LinearForm} :
    (form.foldl (fun v t => v.markActive t.var) v).count = v.count := congrArg List.length names_foldl

end Variables

/-! ## Restated constraints -/

/-- the value of a side; a constraint without one is about zero -/
def FormStore.valueOf (store : FormStore) (v : Assignment) : Option Nat → Rat
  | none => 0
  | some i => (store.sides.getD i []).eval v

theorem FormStore.valueOf_some {store : FormStore} {i : Nat} {side : LinearForm} (h : store.sides[i]? = some side)
    (v : Assignment) : store.valueOf v (some i) = side.eval v := by
  simp [valueOf, List.getD_eq_getElem?_getD, h]

/-- how a constraint may be restated -/
inductive Restates (store : FormStore) (c : Constraint) : Restated → Prop where
  | degenerate (cancels : ∀ v, c.terms.eval v = 0) : Restates store c c.degenerate
  | about {i : Nat} {side : LinearForm} {scale : Rat} (stored : store.sides[i]? = some side) (nonzero : scale ≠ 0)
      (multiple : ∀ v, c.terms.eval v = scale * side.eval v) : Restates store c (c.restate (some i) scale)

namespace Restates

variable {store store' : FormStore} {c : Constraint} {r : Restated}

/-- **Restating keeps the meaning.** -/
theorem holds_iff (h : Restates store c r) (v : Assignment) : c.holds v = r.holds (store.valueOf v r.side) := by
  cases h with
  | degenerate cancels =>
    show c.relation.holds (c.terms.eval v) c.rhs = c.relation.holds 0 c.rhs
    rw [cancels]
  | @about i side scale stored nonzero multiple =>
    have hrhs : c.rhs = scale * (c.rhs / scale) := (mul_div_cancel₀ _ nonzero).symm
    show c.relation.holds (c.terms.eval v) c.rhs =
      Relation.holds (if 0 < scale then c.relation else c.relation.flip) (store.valueOf v (some i)) (c.rhs / scale)
    rw [FormStore.valueOf_some stored, multiple]
    split_ifs with hpos
    · conv_lhs => rw [hrhs]
      exact Relation.holds_mul_of_pos hpos
    · conv_lhs => rw [hrhs, ← Relation.flip_flip c.relation]
      exact Relation.holds_mul_of_neg (lt_of_le_of_ne (not_lt.1 hpos) nonzero)

theorem constraint_eq (h : Restates store c r) : r.constraint = c.id := by cases h <;> rfl

theorem mono (h : Restates store c r) {tail : List LinearForm} (hs : store'.sides = store.sides ++ tail) :
    Restates store' c r := by
  cases h with
  | degenerate cancels => exact .degenerate cancels
  | about stored nonzero multiple =>
    refine .about (hs ▸ ?_) nonzero multiple
    rw [List.getElem?_append_left (List.getElem?_eq_some_iff.1 stored).1, stored]

theorem side_lt (h : Restates store c r) {i : Nat} (hi : r.side = some i) : i < store.size := by
  cases h with
  | degenerate => cases hi
  | about stored _ _ =>
    cases hi
    exact (List.getElem?_eq_some_iff.1 stored).1

/-- a constraint is restated about a side exactly when its coefficients do not all cancel -/
theorem side_eq_none_iff (h : Restates store c r) (hsides : ∀ side ∈ store.sides, side.IsSide) :
    r.side = none ↔ c.terms.collect = [] := by
  rw [LinearForm.collect_eq_nil_iff]
  cases h with
  | degenerate cancels => exact ⟨fun _ => cancels, fun _ => rfl⟩
  | @about i side scale stored nonzero multiple =>
    refine ⟨nofun, fun hcancels => ?_⟩
    obtain ⟨v, hv⟩ := (hsides side (List.mem_of_getElem? stored)).exists_eval 1
    have hzero := multiple v
    rw [hcancels v, hv, mul_one] at hzero
    exact absurd hzero.symm nonzero

theorem exists_side (h : Restates store c r) (hsides : ∀ side ∈ store.sides, side.IsSide)
    (hsurvives : c.terms.collect ≠ []) : ∃ i, r.side = some i :=
  Option.ne_none_iff_exists'.1 (mt (h.side_eq_none_iff hsides).1 hsurvives)

end Restates

/-! ## Recorded contradictions -/

namespace Solver

variable {s : Solver}

theorem clashed_eq (s : Solver) : s.clashed = s.clash.isSome := by
  unfold clashed clash
  cases s.falseConstraint <;> cases s.emptySide <;> rfl

theorem clashed_eq_false_iff : s.clashed = false ↔ s.emptySide = none ∧ s.falseConstraint = none := by
  simp [clashed]

theorem clash_eq_none_iff : s.clash = none ↔ s.clashed = false := by
  rw [clashed_eq, Option.isSome_eq_false_iff, Option.isNone_iff_eq_none]

/-- what is recorded besides, when no contradiction was known -/
def noteClash (s : Solver) (found : Bool) (clash : Clash) : Option Clash :=
  if found && !s.clashed then some clash else s.clash

end Solver

/-! ## The invariant -/

/-- the interval to which restated constraints confine a side -/
def Interval.ofSide (rs : List Restated) (i : Nat) : Interval :=
  (rs.filter fun r => r.side = some i).foldl tighten whole

theorem Interval.contains_ofSide_iff {rs : List Restated} {i : Nat} {q : Rat} :
    (ofSide rs i).contains q = true ↔ ∀ r ∈ rs, r.side = some i → r.holds q = true := by
  have hwhole : whole.contains q = true := rfl
  rw [ofSide, contains_foldl]
  simp only [hwhole, true_and, List.mem_filter, decide_eq_true_eq, and_imp]

namespace Solver

def Contradicts (s : Solver) : Clash → Prop
  | .side i => ∃ interval, s.intervals[i]? = some interval ∧ interval.isEmpty = true
  | .constraint id => ∃ c, s.constraints[id]? = some c ∧ c.id = id ∧ (∀ v, c.terms.eval v = 0) ∧
      c.relation.holds 0 c.rhs = false

structure Registered (s : Solver) : Prop where
  normal : ∀ side ∈ s.store.sides, side.IsSide
  distinct : s.store.sides.Nodup
  known : ∀ side ∈ s.store.sides, ∀ t ∈ side, 0 ≤ t.var ∧ t.var < s.vars.count
  in_use : ∀ side ∈ s.store.sides, side.isTrivial = false → ∀ t ∈ side, s.vars.isActive t.var = true
  varSides_length : s.varSides.length = s.vars.count
  varSide : ∀ x : Nat, x < s.vars.count → ∃ i, s.varSides[x]? = some i ∧ s.store.sides[i]? = some [⟨1, x⟩]
  terms_known : ∀ c ∈ s.constraints, ∀ t ∈ c.terms, 0 ≤ t.var ∧ t.var < s.vars.count
  paired : s.restated.length = s.constraints.length
  restates : ∀ k c r, s.constraints[k]? = some c → s.restated[k]? = some r → c.id = k ∧ Restates s.store c r
  confined : ∀ r ∈ s.restated, ∀ i, r.side = some i → ∀ t ∈ s.store.sides.getD i [], s.vars.isActive t.var = true
  intervals : s.intervals = (List.range s.store.size).map (Interval.ofSide s.restated)
  clash_sound : ∀ clash, s.clash = some clash → s.Contradicts clash
  clash_complete : s.clash = none →
    (∀ i, (Interval.ofSide s.restated i).isEmpty = false) ∧ ∀ r ∈ s.restated, r.side = none → r.holds 0 = true

theorem registered_new (settings : Settings) : Registered (new settings) where
  normal := by simp [new]
  distinct := List.nodup_nil
  known := by simp [new]
  in_use := by simp [new]
  varSides_length := rfl
  varSide := by simp [new, Variables.count]
  terms_known := by simp [new]
  paired := rfl
  restates := by simp [new]
  confined := by simp [new]
  intervals := rfl
  clash_sound := nofun
  clash_complete _ := ⟨fun _ => rfl, by simp [new]⟩

namespace Registered

variable {s s' : Solver} {store : FormStore}

theorem exists_constraint (h : Registered s) {r : Restated} (hr : r ∈ s.restated) :
    ∃ k c, s.constraints[k]? = some c ∧ s.restated[k]? = some r ∧ c.id = k ∧ Restates s.store c r := by
  obtain ⟨k, hk⟩ := List.mem_iff_getElem?.1 hr
  have hlt : k < s.constraints.length := h.paired ▸ (List.getElem?_eq_some_iff.1 hk).1
  obtain ⟨hid, hrestates⟩ := h.restates k _ r (List.getElem?_eq_getElem hlt) hk
  exact ⟨k, _, List.getElem?_eq_getElem hlt, hk, hid, hrestates⟩

theorem exists_restated (h : Registered s) {k : Nat} {c : Constraint} (hc : s.constraints[k]? = some c) :
    ∃ r, s.restated[k]? = some r ∧ c.id = k ∧ Restates s.store c r := by
  have hlt : k < s.restated.length := h.paired ▸ (List.getElem?_eq_some_iff.1 hc).1
  exact ⟨_, List.getElem?_eq_getElem hlt, h.restates k c _ hc (List.getElem?_eq_getElem hlt)⟩

theorem side_lt (h : Registered s) {r : Restated} (hr : r ∈ s.restated) {i : Nat} (hi : r.side = some i) :
    i < s.store.size := by
  obtain ⟨_, _, _, _, _, hrestates⟩ := h.exists_constraint hr
  exact hrestates.side_lt hi

/-- the interval kept for a side is that of the constraints restated about it -/
theorem eq_ofSide (h : Registered s) {i : Nat} {interval : Interval} (hi : s.intervals[i]? = some interval) :
    i < s.store.size ∧ interval = Interval.ofSide s.restated i := by
  have hlt : i < s.store.size := by
    have := (List.getElem?_eq_some_iff.1 hi).1
    simpa [h.intervals] using this
  exact ⟨hlt, by simpa [h.intervals, hlt] using hi.symm⟩

theorem ofSide_eq_whole (h : Registered s) {i : Nat} (hi : s.store.size ≤ i) :
    Interval.ofSide s.restated i = Interval.whole := by
  have hnil : (s.restated.filter fun r => r.side = some i) = [] := by
    refine List.filter_eq_nil_iff.2 fun r hr hside => ?_
    have := h.side_lt hr (by simpa using hside)
    omega
  rw [Interval.ofSide, hnil]
  rfl

theorem coverSides_eq (h : Registered s) (hs : s.store.size ≤ store.size) :
    coverSides store s.intervals = (List.range store.size).map (Interval.ofSide s.restated) := by
  have hlen : s.intervals.length = s.store.size := by simp [h.intervals]
  refine List.ext_getElem? fun i => ?_
  rw [coverSides, hlen]
  by_cases hi : i < s.store.size
  · rw [List.getElem?_append_left (by omega), h.intervals]
    simp [hi, hi.trans_le hs]
  · rw [List.getElem?_append_right (by omega), List.getElem?_replicate, hlen]
    by_cases hi' : i < store.size
    · rw [if_pos (by omega)]
      simp [hi', h.ofSide_eq_whole (not_lt.1 hi)]
    · rw [if_neg (by omega)]
      simp [hi']

/-- what registration knows, when only answers change -/
theorem congr (h : Registered s) (hvars : s'.vars = s.vars) (hstore : s'.store = s.store)
    (hintervals : s'.intervals = s.intervals) (hvarSides : s'.varSides = s.varSides)
    (hconstraints : s'.constraints = s.constraints) (hrestated : s'.restated = s.restated)
    (hclash : s'.clash = s.clash) : Registered s' := by
  obtain ⟨h1, h2, h3, h4, h5, h6, h7, h8, h9, h10, h11, hsound, hcomplete⟩ := h
  rw [← hclash] at hcomplete
  simp only [← hclash] at hsound
  obtain ⟨⟩ := s
  obtain ⟨⟩ := s'
  simp only at hvars hstore hintervals hvarSides hconstraints hrestated
  subst hvars hstore hintervals hvarSides hconstraints hrestated
  exact ⟨h1, h2, h3, h4, h5, h6, h7, h8, h9, h10, h11, hsound, hcomplete⟩

end Registered

end Solver

end Halfspace
