/-
Evidence that the solver finds passes its own check.

A weighted combination of sides that are held back by their bounds becomes a combination of the constraints behind
these bounds. The constraint behind an upper bound, weighted for a positive weight of its side, points upwards, and so
does the constraint behind a low bound for a negative weight, whatever the sign of its scale (`witnessed_spec`). A
constraint stands for one side only, so that the sums which the check forms are those of the combination.
- `ofRow_correct`: a combination that vanishes, with a negative sum of bounds, gives correct evidence;
- `ofConflict_correct`, `ofFalse_correct`: so do the contradictions found during registration.
-/
import Halfspace.Proofs.Acceptance
import Halfspace.Proofs.Fallible
import Halfspace.Proofs.Registry.Registered

namespace Halfspace

open Refutation

/-! ## Constraints behind bounds -/

/-- the end that a restated constraint gives on the side that holds back a weight -/
def Restated.limitFor (r : Restated) (w : Rat) : Option Limit := if 0 < w then r.upperLimit? else r.lowLimit?

theorem Restated.limitFor_eq_some {r : Restated} {w : Rat} {l : Limit} (h : r.limitFor w = some l) :
    l = ⟨r.rhs, r.relation.isStrict, r.constraint⟩ ∧
      (if 0 < w then r.relation.isLow else r.relation.isUpper) = false := by
  unfold limitFor at h
  split_ifs at h ⊢
  · unfold upperLimit? at h
    cases hr : r.relation <;> simp_all [Relation.isLow, Relation.isStrict]
  · unfold lowLimit? at h
    cases hr : r.relation <;> simp_all [Relation.isUpper, Relation.isStrict]

/-- dividing a weight by the scale turns it where restating turned the relation -/
theorem Constraint.fits_of_limitFor {c : Constraint} {i : Nat} {w scale : Rat} {l : Limit} (h0 : w ≠ 0) (hs : scale ≠ 0)
    (h : (c.restate (some i) scale).limitFor w = some l) : Fits c (w / scale) := by
  have hdirection := (Restated.limitFor_eq_some h).2
  rw [fits_iff (div_ne_zero h0 hs)]
  unfold oriented
  simp only [Constraint.restate] at hdirection
  rcases h0.lt_or_gt with hneg | hpos
  · rw [if_neg hneg.not_gt] at hdirection
    rcases hs.lt_or_gt with hs | hs
    · rw [if_neg (not_lt.2 (div_pos_of_neg_of_neg hneg hs).le)]
      simpa [hs.not_gt] using hdirection
    · rw [if_pos (div_neg_of_neg_of_pos hneg hs)]
      simpa [hs] using hdirection
  · rw [if_pos hpos] at hdirection
    rcases hs.lt_or_gt with hs | hs
    · rw [if_pos (div_neg_of_pos_of_neg hpos hs)]
      simpa [hs.not_gt] using hdirection
    · rw [if_neg (not_lt.2 (div_pos hpos hs).le)]
      simpa [hs] using hdirection

def Interval.limitFor (i : Interval) (w : Rat) : Option Limit := if 0 < w then i.upper else i.low

def Limit.deltaFor (l : Limit) (w : Rat) : Delta := if 0 < w then l.upperDelta else l.lowDelta

theorem Interval.holding_span (i : Interval) (w : Rat) : i.span.holding w = (i.limitFor w).map (·.deltaFor w) := by
  unfold Span.holding Interval.limitFor Limit.deltaFor
  split_ifs <;> rfl

theorem Limit.base_deltaFor (l : Limit) (w : Rat) : (l.deltaFor w).base = l.value := by
  unfold deltaFor
  split_ifs <;> rfl

theorem Limit.slope_deltaFor {l : Limit} (h : l.strict = false) (w : Rat) : (l.deltaFor w).slope = 0 := by
  unfold deltaFor
  split_ifs <;> simp [upperDelta, lowDelta, h]

namespace Solver

variable {s : Solver} {limit : DigitLimit}

/-- the term `t` weighs the constraint `c` behind the end `l` of side `i`, as `w` weighs the side -/
structure Stands (s : Solver) (w : Rat) (i : Nat) (l : Limit) (t : Term) (c : Constraint) : Prop where
  var : t.var = l.witness
  named : s.constraints[l.witness]? = some c
  nonzero : t.coef ≠ 0
  fits : Fits c t.coef
  left : ∀ v, t.coef * c.terms.eval v = w * s.store.valueOf v (some i)
  right : t.coef * c.rhs = w * l.value
  strict : c.relation.isStrict = l.strict

theorem Registered.exists_witness (h : Registered s) {i : Nat} {w : Rat} {l : Limit}
    (hl : (Interval.ofSide s.restated i).limitFor w = some l) :
    ∃ r c, s.restated[l.witness]? = some r ∧ s.constraints[l.witness]? = some c ∧ Restates s.store c r ∧
      r.side = some i ∧ r.limitFor w = some l := by
  have hmem : ∃ r ∈ s.restated, r.side = some i ∧ r.limitFor w = some l := by
    unfold Interval.limitFor at hl
    unfold Restated.limitFor
    split_ifs at hl ⊢ with hpos
    · rcases Interval.upper_foldl hl with hl | ⟨r, hr, hl⟩
      · cases hl
      · obtain ⟨hr, hside⟩ := List.mem_filter.1 hr
        exact ⟨r, hr, by simpa using hside, hl⟩
    · rcases Interval.low_foldl hl with hl | ⟨r, hr, hl⟩
      · cases hl
      · obtain ⟨hr, hside⟩ := List.mem_filter.1 hr
        exact ⟨r, hr, by simpa using hside, hl⟩
  obtain ⟨r, hr, hside, hlimit⟩ := hmem
  obtain ⟨k, c, hc, hk, hid, hrestates⟩ := h.exists_constraint hr
  have hwitness : l.witness = k := by rw [(Restated.limitFor_eq_some hlimit).1, hrestates.constraint_eq, hid]
  exact ⟨r, c, hwitness ▸ hk, hwitness ▸ hc, hrestates, hside, hlimit⟩

/-- **Witnesses.** A side with a weight, held back by an end of its interval, is stood for by the constraint behind
that end. -/
theorem witnessed_spec (h : Registered s) {w : Rat} {i : Nat} {l : Limit} (h0 : w ≠ 0) (hi : i < s.store.size)
    (hl : (Interval.ofSide s.restated i).limitFor w = some l) :
    ∃ t c, witnessed limit s.intervals s.restated (w, i) = .ok (some t) ∧ Stands s w i l t c := by
  obtain ⟨r, c, hr, hc, hrestates, hside, hlimit⟩ := h.exists_witness hl
  have hfetch : fetch s.intervals (i : Int) = .ok (Interval.ofSide s.restated i) :=
    fetch_natCast (by simp [h.intervals, hi])
  cases hrestates with
  | degenerate => cases hside
  | @about i side scale stored nonzero multiple =>
    cases hside
    have hl' := (Restated.limitFor_eq_some hlimit).1
    refine ⟨⟨w / scale, l.witness⟩, c, ?_, rfl, hc, div_ne_zero h0 nonzero,
      Constraint.fits_of_limitFor h0 nonzero hlimit, fun v => ?_, ?_, ?_⟩
    · have hlimit' : (if 0 < w then (Interval.ofSide s.restated i).upper else (Interval.ofSide s.restated i).low) =
          some l := hl
      unfold witnessed
      simp only [if_neg h0, hfetch, bind, Except.bind, hlimit', hr]
      rfl
    · calc w / scale * c.terms.eval v
        _ = w / scale * scale * side.eval v := by rw [multiple, mul_assoc]
        _ = w * s.store.valueOf v (some i) := by rw [div_mul_cancel₀ w nonzero, FormStore.valueOf_some stored]
    · calc w / scale * c.rhs
        _ = w * (c.rhs / scale) := by rw [div_mul_eq_mul_div, mul_div_assoc]
        _ = w * l.value := by rw [hl']; rfl
    · rw [hl']
      simp only [Constraint.restate]
      split_ifs <;> simp

/-! ## Combinations of sides -/

def leftAt (s : Solver) (v : Assignment) : Assignment := fun x =>
  ((s.constraints[x.toNat]?).map fun c => c.terms.eval v).getD 0

def rightAt (s : Solver) : Assignment := fun x => ((s.constraints[x.toNat]?).map (·.rhs)).getD 0

def StoodFor (s : Solver) (e : Rat × Nat) (t : Term) : Prop :=
  ∃ l c, (Interval.ofSide s.restated e.2).limitFor e.1 = some l ∧ Stands s e.1 e.2 l t c

/-- sides with weights, each of them in the store and held back by an end of its interval -/
structure Held (s : Solver) (es : List (Rat × Nat)) : Prop where
  nonzero : ∀ e ∈ es, e.1 ≠ 0
  stored : ∀ e ∈ es, e.2 < s.store.size
  limit : ∀ e ∈ es, ∃ l, (Interval.ofSide s.restated e.2).limitFor e.1 = some l

theorem Held.tail {e : Rat × Nat} {es : List (Rat × Nat)} (h : Held s (e :: es)) : Held s es :=
  ⟨fun x hx => h.nonzero x (List.mem_cons_of_mem _ hx), fun x hx => h.stored x (List.mem_cons_of_mem _ hx),
    fun x hx => h.limit x (List.mem_cons_of_mem _ hx)⟩

theorem exists_terms (h : Registered s) {es : List (Rat × Nat)} (hes : Held s es) :
    ∃ ts : List Term, (es.map fun e => (e.1, (e.2 : Int))).mapM (witnessed limit s.intervals s.restated) =
        .ok (ts.map some) ∧ List.Forall₂ (StoodFor s) es ts := by
  induction es with
  | nil => exact ⟨[], rfl, .nil⟩
  | cons e rest ih =>
    obtain ⟨l, hl⟩ := hes.limit e List.mem_cons_self
    obtain ⟨t, c, ht, hstands⟩ :=
      witnessed_spec h (hes.nonzero e List.mem_cons_self) (hes.stored e List.mem_cons_self) hl
    obtain ⟨ts, hts, hall⟩ := ih hes.tail
    refine ⟨t :: ts, ?_, .cons ⟨l, c, hl, hstands⟩ hall⟩
    rw [List.map_cons, List.mapM_cons, ht, hts]
    rfl

theorem eval_leftAt {es : List (Rat × Nat)} {ts : List Term} (h : List.Forall₂ (StoodFor s) es ts) (v : Assignment) :
    LinearForm.eval (s.leftAt v) ts = (es.map fun e => e.1 * s.store.valueOf v (some e.2)).sum := by
  induction h with
  | nil => rfl
  | @cons e t _ _ hstood _ ih =>
    obtain ⟨l, c, -, hstands⟩ := hstood
    have hleft : s.leftAt v t.var = c.terms.eval v := by simp [leftAt, hstands.var, hstands.named]
    rw [List.map_cons, List.sum_cons, ← ih, ← hstands.left v]
    simp only [LinearForm.eval, hleft]

theorem eval_rightAt {es : List (Rat × Nat)} {ts : List Term} (h : List.Forall₂ (StoodFor s) es ts) :
    LinearForm.eval s.rightAt ts =
      (es.map fun e => e.1 • ((Interval.ofSide s.restated e.2).span.holding e.1).getD 0).sum.base := by
  induction h with
  | nil => rfl
  | @cons e t _ _ hstood _ ih =>
    obtain ⟨l, c, hl, hstands⟩ := hstood
    have hright : s.rightAt t.var = c.rhs := by simp [rightAt, hstands.var, hstands.named]
    rw [List.map_cons, List.sum_cons, Delta.base_add, ← ih, Delta.base_smul, Interval.holding_span, hl]
    simp only [LinearForm.eval, hright, hstands.right, Option.map_some, Option.getD_some, Limit.base_deltaFor]

/-- where the sum of bounds has a negative infinitesimal part, one of the constraints behind them is strict -/
theorem exists_strict {es : List (Rat × Nat)} {ts : List Term} (h : List.Forall₂ (StoodFor s) es ts)
    (hslope : (es.map fun e => e.1 • ((Interval.ofSide s.restated e.2).span.holding e.1).getD 0).sum.slope ≠ 0) :
    ∃ t ∈ ts, t.coef ≠ 0 ∧ ∃ c, s.constraints[t.var.toNat]? = some c ∧ c.relation.isStrict = true := by
  induction h with
  | nil => exact absurd rfl hslope
  | @cons e t _ _ hstood _ ih =>
    obtain ⟨l, c, hl, hstands⟩ := hstood
    cases hstrict : l.strict with
    | true =>
      refine ⟨t, List.mem_cons_self, hstands.nonzero, c, ?_, hstands.strict.trans hstrict⟩
      rw [hstands.var, Int.toNat_natCast]
      exact hstands.named
    | false =>
      rw [List.map_cons, List.sum_cons, Delta.slope_add, Delta.slope_smul, Interval.holding_span, hl, Option.map_some,
        Option.getD_some, Limit.slope_deltaFor hstrict, mul_zero, zero_add] at hslope
      obtain ⟨u, hu, hrest⟩ := ih hslope
      exact ⟨u, List.mem_cons_of_mem _ hu, hrest⟩

/-! ## Terms over constraints -/

def Named (s : Solver) (ts : List Term) : Prop :=
  ∀ t ∈ ts, ∃ c, s.constraints[t.var.toNat]? = some c ∧ Fits c t.coef

def evidenceOf (ts : List Term) : Evidence := (LinearForm.collect ts).map fun t => (t.coef, t.var.toNat)

theorem named_of_stoodFor {es : List (Rat × Nat)} {ts : List Term} (h : List.Forall₂ (StoodFor s) es ts) :
    Named s ts := by
  induction h with
  | nil => exact fun t ht => by simp at ht
  | @cons e t _ _ hstood _ ih =>
    obtain ⟨l, c, -, hstands⟩ := hstood
    refine List.forall_mem_cons.2 ⟨⟨c, ?_, hstands.fits⟩, ih⟩
    rw [hstands.var, Int.toNat_natCast]
    exact hstands.named

namespace Named

variable {ts : List Term} {ws : List Weighted}

theorem fits (h : Named s ts) {x : Int} {c : Constraint} (hc : s.constraints[x.toNat]? = some c) :
    ∀ t ∈ ts, t.var = x → Fits c t.coef := by
  intro t ht hvar
  obtain ⟨c', hc', hfit⟩ := h t ht
  rw [hvar] at hc'
  exact Option.some.inj (hc'.symm.trans hc) ▸ hfit

theorem exists_weighted (h : Named s ts) : ∃ ws, weighted? s.constraints (evidenceOf ts) = some ws := by
  refine Refutation.exists_weighted fun e he => ?_
  obtain ⟨t, ht, rfl⟩ := List.mem_map.1 he
  obtain ⟨u, hu, hvar⟩ := LinearForm.var_of_mem_collect ht
  obtain ⟨c, hc, -⟩ := h u hu
  exact ⟨c, hvar ▸ hc⟩

/-- the weights that are added up point upwards too -/
theorem fits_weighted (h : Named s ts) (hws : weighted? s.constraints (evidenceOf ts) = some ws) :
    ∀ w ∈ ws, w.weight ≠ 0 ∧ Fits w.constraint w.weight := by
  intro w hw
  obtain ⟨e, he, hweight, hc⟩ := mem_of_weighted? hws hw
  obtain ⟨t, ht, rfl⟩ := List.mem_map.1 he
  obtain ⟨h0, hsum⟩ := LinearForm.mem_collect_iff.1 ht
  rw [hweight]
  exact ⟨h0, hsum ▸ Fits.eval_unit (h.fits hc)⟩

/-- a strict constraint that some term weighs is among those added up -/
theorem exists_strict (h : Named s ts) (hws : weighted? s.constraints (evidenceOf ts) = some ws) {t : Term}
    (ht : t ∈ ts) (h0 : t.coef ≠ 0) {c : Constraint} (hc : s.constraints[t.var.toNat]? = some c)
    (hstrict : c.relation.isStrict = true) : ∃ w ∈ ws, (oriented w).isStrict = true := by
  have hne : LinearForm.eval (Assignment.unit t.var) ts ≠ 0 :=
    Fits.eval_unit_ne_zero hstrict (h.fits hc) ⟨t, ht, rfl, h0⟩
  have hmem : (⟨LinearForm.eval (Assignment.unit t.var) ts, t.var⟩ : Term) ∈ LinearForm.collect ts :=
    LinearForm.mem_collect_iff.2 ⟨hne, rfl⟩
  obtain ⟨w, hw, -, hc'⟩ := exists_of_mem_evidence hws (List.mem_map.2 ⟨_, hmem, rfl⟩)
  refine ⟨w, hw, ?_⟩
  rw [isStrict_oriented, ← Option.some.inj (hc.symm.trans hc')]
  exact hstrict

end Named

/-- what weighted constraints add up to, as the value of the terms -/
theorem sum_of_evidenceOf {ts : List Term} {ws : List Weighted} (f : Assignment) (g : Constraint → Rat)
    (hws : weighted? s.constraints (evidenceOf ts) = some ws)
    (hfg : ∀ (x : Int) c, s.constraints[x.toNat]? = some c → f x = g c) :
    (ws.map fun w => w.weight * g w.constraint).sum = LinearForm.eval f ts := by
  rw [← LinearForm.eval_collect f ts]
  exact sum_of_weighted (fun t _ c hc => hfg t.var c hc) (weighted?_eq_some_iff.1 hws)

/-- terms over constraints are correct evidence if their left sides cancel and their right sides contradict -/
theorem isCorrect_of_terms {ts : List Term} (hnamed : Named s ts) (hleft : ∀ v, LinearForm.eval (s.leftAt v) ts = 0)
    (hright : LinearForm.eval s.rightAt ts < 0 ∨ LinearForm.eval s.rightAt ts = 0 ∧
      ∃ t ∈ ts, t.coef ≠ 0 ∧ ∃ c, s.constraints[t.var.toNat]? = some c ∧ c.relation.isStrict = true) :
    isCorrect s.constraints (evidenceOf ts) = true := by
  obtain ⟨ws, hws⟩ := hnamed.exists_weighted
  have hfits := hnamed.fits_weighted hws
  have hrightSum : rightSum ws = LinearForm.eval s.rightAt ts := by
    rw [rightSum_eq_sum]
    exact sum_of_evidenceOf s.rightAt (·.rhs) hws fun x c hc => by simp [rightAt, hc]
  refine isCorrect_iff.2 ⟨ws, hws, isRefutation_of_upper (fun w hw => (hfits w hw).1)
    (fun w hw => (fits_iff (hfits w hw).1).1 (hfits w hw).2) (fun v => ?_) ?_⟩
  · rw [← hleft v]
    exact sum_of_evidenceOf (s.leftAt v) (fun c => c.terms.eval v) hws fun x c hc => by simp [leftAt, hc]
  · rw [hrightSum]
    exact hright.imp id fun ⟨hzero, t, ht, h0, c, hc, hstrict⟩ => ⟨hzero, hnamed.exists_strict hws ht h0 hc hstrict⟩

/-- the evidence of a row of held sides, as terms that stand for them -/
theorem ofRow_eq (h : Registered s) {es : List (Rat × Nat)} (hes : Held s es) :
    ∃ ts, ofRow s.intervals s.restated (es.map fun e => (e.1, (e.2 : Int))) limit = .ok (evidenceOf ts) ∧
      List.Forall₂ (StoodFor s) es ts := by
  obtain ⟨ts, hts, hall⟩ := exists_terms h hes
  refine ⟨ts, ?_, hall⟩
  unfold ofRow
  rw [hts]
  show Except.ok _ = Except.ok _
  rw [List.filterMap_map, Function.id_comp, List.filterMap_some]
  rfl

/-- **Evidence from a row.** A combination of held sides that vanishes under every assignment, although its bounds have
a negative sum, gives correct evidence. -/
theorem ofRow_correct (h : Registered s) (es : List (Rat × Nat)) (hes : Held s es)
    (hleft : ∀ v, (es.map fun e => e.1 * s.store.valueOf v (some e.2)).sum = 0)
    (hneg : (es.map fun e => e.1 • ((Interval.ofSide s.restated e.2).span.holding e.1).getD 0).sum < 0) :
    ∃ evidence, ofRow s.intervals s.restated (es.map fun e => (e.1, (e.2 : Int))) limit = .ok evidence ∧
      isCorrect s.constraints evidence = true := by
  obtain ⟨ts, hts, hall⟩ := ofRow_eq h hes
  refine ⟨evidenceOf ts, hts, ?_⟩
  refine isCorrect_of_terms (named_of_stoodFor hall) (fun v => (eval_leftAt hall v).trans (hleft v)) ?_
  rw [eval_rightAt hall]
  rcases (Delta.lt_iff _ _).1 hneg with hbase | ⟨hbase, hslope⟩
  · exact Or.inl hbase
  · exact Or.inr ⟨hbase, exists_strict hall hslope.ne⟩

/-! ## Contradictions found during registration -/

/-- the two ends of a side whose interval is empty, with their sum below zero -/
theorem held_conflict (h : Registered s) {i : Nat} {interval : Interval} (hi : s.intervals[i]? = some interval)
    (hempty : interval.isEmpty = true) : Held s [(1, i), (-1, i)] ∧
      ([((1 : Rat), i), (-1, i)].map fun e =>
        e.1 • ((Interval.ofSide s.restated e.2).span.holding e.1).getD 0).sum < 0 := by
  obtain ⟨hlt, rfl⟩ := h.eq_ofSide hi
  obtain ⟨l, u, hl, hu, hcross⟩ := (Interval.isEmpty_iff _).1 hempty
  have hneg : ¬(0 : Rat) < -1 := by norm_num
  refine ⟨⟨by norm_num, by simpa using hlt, ?_⟩, ?_⟩
  · simp [Interval.limitFor, hl, hu, hneg]
  · simpa [Span.holding, Interval.span, hl, hu, hneg] using hcross

/-- **Evidence from an empty interval.** -/
theorem ofConflict_correct (h : Registered s) {i : Nat} {interval : Interval}
    (hi : s.intervals[i]? = some interval) (hempty : interval.isEmpty = true) :
    ∃ evidence, ofConflict s.intervals s.restated i limit = .ok evidence ∧ isCorrect s.constraints evidence = true := by
  obtain ⟨hheld, hneg⟩ := held_conflict h hi hempty
  exact ofRow_correct h [(1, i), (-1, i)] hheld (fun v => by simp) hneg

/-- **Evidence from a false constraint.** -/
theorem ofFalse_correct {c : Constraint} (hc : s.constraints[c.id]? = some c) (hcancels : ∀ v, c.terms.eval v = 0)
    (hfalse : c.relation.holds 0 c.rhs = false) : isCorrect s.constraints (ofFalse c) = true := by
  have hsingle : ∀ k : Rat, k ≠ 0 → Fits c k → (k * c.rhs < 0 ∨ k * c.rhs = 0 ∧ c.relation.isStrict = true) →
      isCorrect s.constraints [(k, c.id)] = true := by
    intro k h0 hfit hright
    have hws : weighted? s.constraints [(k, c.id)] = some [⟨k, c⟩] :=
      weighted?_eq_some_iff.2 (.cons ⟨rfl, hc⟩ .nil)
    refine isCorrect_iff.2 ⟨_, hws, isRefutation_of_upper (by simpa using h0) (by simpa using (fits_iff h0).1 hfit)
      (fun v => by simp [leftValue, hcancels]) ?_⟩
    simpa [rightSum, isStrict_oriented] using hright
  have hone : c.relation.isLow = false → Fits c 1 := fun h => ⟨fun _ => zero_le_one, by simp [h]⟩
  have hminus : c.relation.isUpper = false → Fits c (-1) := fun h => ⟨by simp [h], fun _ => by norm_num⟩
  unfold ofFalse
  cases hr : c.relation with
  | le =>
    have hrhs : c.rhs < 0 := by simpa [hr, Relation.holds] using hfalse
    exact hsingle 1 one_ne_zero (hone (by rw [hr]; rfl)) (Or.inl (by simpa using hrhs))
  | lt =>
    have hrhs : c.rhs ≤ 0 := by simpa [hr, Relation.holds] using hfalse
    refine hsingle 1 one_ne_zero (hone (by rw [hr]; rfl)) ?_
    simpa [hr, Relation.isStrict] using hrhs.lt_or_eq
  | ge =>
    have hrhs : 0 < c.rhs := by simpa [hr, Relation.holds] using hfalse
    exact hsingle (-1) (by norm_num) (hminus (by rw [hr]; rfl)) (Or.inl (by simpa using hrhs))
  | gt =>
    have hrhs : 0 ≤ c.rhs := by simpa [hr, Relation.holds] using hfalse
    refine hsingle (-1) (by norm_num) (hminus (by rw [hr]; rfl)) ?_
    simpa [hr, Relation.isStrict, eq_comm] using hrhs.lt_or_eq
  | eq =>
    have hrhs : c.rhs ≠ 0 := by simpa [hr, Relation.holds, eq_comm] using hfalse
    simp only
    split_ifs with hpos
    · exact hsingle (-1) (by norm_num) (hminus (by rw [hr]; rfl)) (Or.inl (by simpa using hpos))
    · exact hsingle 1 one_ne_zero (hone (by rw [hr]; rfl))
        (Or.inl (by simpa using lt_of_le_of_ne (not_lt.1 hpos) hrhs))

end Solver

end Halfspace
