/-
From rows over left sides to evidence, whatever the row.

A row may name a side more than once, with weights of either sign or zero. Its translation fails on the first entry
whose side lacks the bound that would hold it back. Otherwise the evidence says of the constraints what the row says of
the sides: the weighted left sides have one sum, and so have the weighted right sides and bounds.
- `mapM_witnessed_error`: the first entry without its bound;
- `termsOfRow_filter`: entries of weight zero do not matter;
- `aggregate_of_upper`: constraints that point upwards have a common relation;
- `row_translated`: all of it, for every reachable state and every row.
-/
import Halfspace.Proofs.Answers
import Halfspace.Proofs.DigitLimits

namespace Halfspace

open Refutation

/-- constraints that all point upwards have a common relation that does -/
theorem Refutation.aggregate_of_upper {ws : List Weighted} (hnonzero : ∀ w ∈ ws, w.weight ≠ 0)
    (hupper : ∀ w ∈ ws, (oriented w).isLow = false) :
    aggregate ws = some .le ∨ aggregate ws = some .lt ∨ aggregate ws = some .eq := by
  have hzero : (ws.any fun w => w.weight = 0) = false := by simpa using hnonzero
  have hlow : (ws.any fun w => (oriented w).isLow) = false := by simpa using hupper
  simp only [aggregate, hzero, hlow, Bool.false_eq_true, if_false]
  cases ws.any fun w => (oriented w).isUpper with
  | false => exact Or.inr (Or.inr rfl)
  | true =>
    cases ws.any fun w => (oriented w).isStrict with
    | false => exact Or.inl rfl
    | true => exact Or.inr (Or.inl rfl)

namespace Solver

variable {s : Solver} {settings : Settings} {limit : DigitLimit} {es : List (Rat × Nat)} {e : Rat × Nat}

/-! ## Bounds that hold entries back -/

/-- the end of its side that holds back an entry: the upper one for a positive weight, the low one for others -/
def limitOf (s : Solver) (e : Rat × Nat) : Option Limit := (s.intervals.getD e.2 Interval.whole).limitFor e.1

def boundOf (s : Solver) (e : Rat × Nat) : Rat := ((s.limitOf e).map Limit.value).getD 0

def lacksBound (s : Solver) (e : Rat × Nat) : Bool :=
  (0 < e.1 && (s.intervals.getD e.2 Interval.whole).upper.isNone) ||
    (e.1 < 0 && (s.intervals.getD e.2 Interval.whole).low.isNone)

def asRow (es : List (Rat × Nat)) : List (Rat × Int) := es.map fun e => (e.1, (e.2 : Int))

theorem lacksBound_eq (s : Solver) (e : Rat × Nat) : s.lacksBound e = (e.1 ≠ 0 && (s.limitOf e).isNone) := by
  unfold lacksBound limitOf Interval.limitFor
  rcases lt_trichotomy e.1 0 with hneg | hzero | hpos
  · simp [hneg, hneg.ne, hneg.not_gt]
  · simp [hzero]
  · simp [hpos, hpos.ne', hpos.not_gt]

theorem Registered.limitOf_eq (h : Registered s) (hi : e.2 < s.store.size) :
    s.limitOf e = (Interval.ofSide s.restated e.2).limitFor e.1 := by
  unfold limitOf
  simp [h.intervals, List.getD_eq_getElem?_getD, hi]

/-! ## Failures -/

/-- an entry that lacks its bound has none to be found -/
theorem witnessed_of_lacksBound (h : Registered s) (hi : e.2 < s.store.size) (hlacks : s.lacksBound e = true) :
    witnessed limit s.intervals s.restated (e.1, (e.2 : Int)) =
      .error (limit.explain [e.1] (.missingBound e.2 e.1)) := by
  rw [lacksBound_eq, h.limitOf_eq hi] at hlacks
  simp only [ne_eq, Bool.and_eq_true, decide_eq_true_eq, Option.isNone_iff_eq_none] at hlacks
  obtain ⟨h0, hnone⟩ := hlacks
  have hfetch : fetch s.intervals (e.2 : Int) = .ok (Interval.ofSide s.restated e.2) :=
    fetch_natCast (by simp [h.intervals, hi])
  have hlimit : (if 0 < e.1 then (Interval.ofSide s.restated e.2).upper else (Interval.ofSide s.restated e.2).low) =
      none := hnone
  unfold witnessed
  simp only [if_neg h0, hfetch, bind, Except.bind, hlimit]

/-- an entry that does not is found a witness, unless its weight is zero -/
theorem exists_witnessed (h : Registered s) (hi : e.2 < s.store.size) (hlacks : s.lacksBound e = false) :
    ∃ t, witnessed limit s.intervals s.restated (e.1, (e.2 : Int)) = .ok t := by
  by_cases h0 : e.1 = 0
  · exact ⟨none, by simp [witnessed, h0]; rfl⟩
  · rw [lacksBound_eq, h.limitOf_eq hi] at hlacks
    simp only [ne_eq, h0, not_false_eq_true, decide_true, Bool.true_and, Option.isNone_eq_false_iff,
      Option.isSome_iff_exists] at hlacks
    obtain ⟨l, hl⟩ := hlacks
    obtain ⟨t, -, ht, -⟩ := witnessed_spec h h0 hi hl
    exact ⟨some t, ht⟩

/-- **Failures.** The translation of a row fails on the first entry that lacks its bound. -/
theorem mapM_witnessed_error (h : Registered s) (hstored : ∀ e ∈ es, e.2 < s.store.size)
    (hfirst : es.find? s.lacksBound = some e) :
    (asRow es).mapM (witnessed limit s.intervals s.restated) =
      .error (limit.explain [e.1] (.missingBound e.2 e.1)) := by
  induction es with
  | nil => cases hfirst
  | cons x rest ih =>
    have hx : x.2 < s.store.size := hstored x List.mem_cons_self
    rw [asRow, List.map_cons, List.mapM_cons]
    cases hlacks : s.lacksBound x with
    | true =>
      rw [List.find?_cons_of_pos hlacks] at hfirst
      obtain rfl : x = e := Option.some.inj hfirst
      rw [witnessed_of_lacksBound h hx hlacks]
      rfl
    | false =>
      rw [List.find?_cons_of_neg (by simp [hlacks])] at hfirst
      obtain ⟨t, ht⟩ := exists_witnessed h hx hlacks
      have hrest := ih (fun e' he' => hstored e' (List.mem_cons_of_mem _ he')) hfirst
      rw [asRow] at hrest
      rw [ht, hrest]
      rfl

/-! ## Entries of weight zero -/

def termsOfRow (limit : DigitLimit) (intervals : List Interval) (restated : List Restated) (es : List (Rat × Nat)) :
    Except Fault (List Term) := ((asRow es).mapM (witnessed limit intervals restated)).map (·.filterMap id)

theorem ofRow_asRow (limit : DigitLimit) (intervals : List Interval) (restated : List Restated) (es : List (Rat × Nat)) :
    ofRow intervals restated (asRow es) limit = (termsOfRow limit intervals restated es).map evidenceOf := by
  unfold ofRow termsOfRow
  cases (asRow es).mapM (witnessed limit intervals restated) <;> rfl

theorem termsOfRow_cons (limit : DigitLimit) (intervals : List Interval) (restated : List Restated) (e : Rat × Nat)
    (es : List (Rat × Nat)) : termsOfRow limit intervals restated (e :: es) =
      (witnessed limit intervals restated (e.1, (e.2 : Int))).bind fun t =>
        (termsOfRow limit intervals restated es).map (t.toList ++ ·) := by
  unfold termsOfRow
  rw [asRow, List.map_cons, List.mapM_cons, ← asRow]
  cases witnessed limit intervals restated (e.1, (e.2 : Int)) with
  | error fault => rfl
  | ok t => cases (asRow es).mapM (witnessed limit intervals restated) <;> cases t <;> rfl

theorem termsOfRow_filter (limit : DigitLimit) (intervals : List Interval) (restated : List Restated) (es : List (Rat × Nat)) :
    termsOfRow limit intervals restated (es.filter (·.1 ≠ 0)) = termsOfRow limit intervals restated es := by
  induction es with
  | nil => rfl
  | cons e rest ih =>
    rw [termsOfRow_cons, ← ih]
    by_cases h0 : e.1 = 0
    · have hnone : witnessed limit intervals restated (e.1, (e.2 : Int)) = .ok none := by
        simp only [witnessed, if_pos h0]
        rfl
      rw [List.filter_cons_of_neg (by simp [h0]), hnone]
      cases termsOfRow limit intervals restated (rest.filter (·.1 ≠ 0)) <;> rfl
    · rw [List.filter_cons_of_pos (by simp [h0]), termsOfRow_cons]

/-! ## Sums -/

theorem sum_filter (f : Rat × Nat → Rat) (hf : ∀ e : Rat × Nat, e.1 = 0 → f e = 0) (es : List (Rat × Nat)) :
    ((es.filter (·.1 ≠ 0)).map f).sum = (es.map f).sum := by
  induction es with
  | nil => rfl
  | cons e rest ih =>
    by_cases h0 : e.1 = 0
    · rw [List.filter_cons_of_neg (by simp [h0]), ih, List.map_cons, List.sum_cons, hf e h0, zero_add]
    · rw [List.filter_cons_of_pos (by simp [h0]), List.map_cons, List.sum_cons, ih, List.map_cons, List.sum_cons]

theorem eval_rightAt_boundOf (h : Registered s) (hstored : ∀ e ∈ es, e.2 < s.store.size) {ts : List Term}
    (hstood : List.Forall₂ (StoodFor s) es ts) :
    LinearForm.eval s.rightAt ts = (es.map fun e => e.1 * s.boundOf e).sum := by
  induction hstood with
  | nil => rfl
  | @cons e t _ _ hfirst _ ih =>
    obtain ⟨l, c, hl, hstands⟩ := hfirst
    have hright : s.rightAt t.var = c.rhs := by simp [rightAt, hstands.var, hstands.named]
    have hbound : s.boundOf e = l.value := by
      rw [boundOf, h.limitOf_eq (hstored e List.mem_cons_self), hl]
      rfl
    rw [List.map_cons, List.sum_cons, ← ih fun e' he' => hstored e' (List.mem_cons_of_mem _ he'), hbound,
      ← hstands.right]
    simp only [LinearForm.eval, hright]

/-- terms that stand for entries are added up in the order of their constraints -/
theorem sorted_evidenceOf {ts : List Term} (hstood : List.Forall₂ (StoodFor s) es ts) :
    (evidenceOf ts).Pairwise fun e e' => e.2 < e'.2 := by
  have hnat : ∀ t ∈ LinearForm.collect ts, 0 ≤ t.var := by
    intro t ht
    obtain ⟨u, hu, hvar⟩ := LinearForm.var_of_mem_collect ht
    obtain ⟨e, -, l, c, -, hstands⟩ := exists_of_forall₂ hstood hu
    rw [hvar, hstands.var]
    exact Int.natCast_nonneg _
  rw [evidenceOf, List.pairwise_map]
  refine (LinearForm.sorted_collect ts).imp_of_mem ?_
  intro t u ht hu hlt
  have := hnat t ht
  have := hnat u hu
  show t.var.toNat < u.var.toNat
  omega

/-! ## Translation -/

/-- what evidence says of the constraints, and a row of their sides -/
structure Translates (s : Solver) (es : List (Rat × Nat)) (evidence : Evidence) (ws : List Weighted) : Prop where
  sorted : evidence.Pairwise fun e e' => e.2 < e'.2
  nonzero : ∀ e ∈ evidence, e.1 ≠ 0
  weighted : weighted? s.constraints evidence = some ws
  /-- the weighted left sides are the combination of the canonical sides, as linear functions -/
  left : ∀ v, (leftSum ws).eval v = (es.map fun e => e.1 * (s.store.sides.getD e.2 []).eval v).sum
  /-- the weighted right sides are that of the bounds that hold the entries back -/
  right : rightSum ws = (es.map fun e => e.1 * s.boundOf e).sum
  upwards : aggregate ws = some .le ∨ aggregate ws = some .lt ∨ aggregate ws = some .eq

theorem held_filter (h : Registered s) (hstored : ∀ e ∈ es, e.2 < s.store.size)
    (hheld : ∀ e ∈ es, s.lacksBound e = false) : Held s (es.filter (·.1 ≠ 0)) := by
  constructor
  · intro e he
    simpa using (List.mem_filter.1 he).2
  · intro e he
    exact hstored e (List.mem_filter.1 he).1
  · intro e he
    obtain ⟨he, h0⟩ := List.mem_filter.1 he
    have hlacks := hheld e he
    rw [lacksBound_eq, h.limitOf_eq (hstored e he)] at hlacks
    simpa [h0, Option.isSome_iff_exists] using hlacks

theorem ofRow_translates (h : Registered s) (hstored : ∀ e ∈ es, e.2 < s.store.size)
    (hheld : ∀ e ∈ es, s.lacksBound e = false) :
    ∃ evidence ws, ofRow s.intervals s.restated (asRow es) limit = .ok evidence ∧ Translates s es evidence ws := by
  have hheld' := held_filter h hstored hheld
  obtain ⟨ts, hts, hstood⟩ := ofRow_eq h hheld'
  have hnamed := named_of_stoodFor hstood
  obtain ⟨ws, hws⟩ := hnamed.exists_weighted
  have hfits := hnamed.fits_weighted hws
  refine ⟨evidenceOf ts, ws, ?_, ?_⟩
  · rw [ofRow_asRow, ← termsOfRow_filter, ← ofRow_asRow]
    exact hts
  constructor
  case sorted => exact sorted_evidenceOf hstood
  case nonzero =>
    intro e he
    obtain ⟨t, ht, rfl⟩ := List.mem_map.1 he
    exact LinearForm.coef_ne_zero_of_mem_collect ht
  case weighted => exact hws
  case left =>
    intro v
    calc (leftSum ws).eval v
      _ = (ws.map fun w => w.weight * w.constraint.terms.eval v).sum := eval_leftSum v ws
      _ = LinearForm.eval (s.leftAt v) ts :=
        sum_of_evidenceOf (s.leftAt v) (fun c => c.terms.eval v) hws fun x c hc => by simp [leftAt, hc]
      _ = ((es.filter (·.1 ≠ 0)).map fun e => e.1 * s.store.valueOf v (some e.2)).sum := eval_leftAt hstood v
      _ = (es.map fun e => e.1 * (s.store.sides.getD e.2 []).eval v).sum :=
        sum_filter (fun e => e.1 * s.store.valueOf v (some e.2)) (fun e h0 => by rw [h0, zero_mul]) es
  case right =>
    calc rightSum ws
      _ = (ws.map fun w => w.weight * w.constraint.rhs).sum := rightSum_eq_sum ws
      _ = LinearForm.eval s.rightAt ts := sum_of_evidenceOf s.rightAt (·.rhs) hws fun x c hc => by simp [rightAt, hc]
      _ = ((es.filter (·.1 ≠ 0)).map fun e => e.1 * s.boundOf e).sum := eval_rightAt_boundOf h hheld'.stored hstood
      _ = (es.map fun e => e.1 * s.boundOf e).sum :=
        sum_filter (fun e => e.1 * s.boundOf e) (fun e h0 => by rw [h0, zero_mul]) es
  case upwards =>
    exact aggregate_of_upper (fun w hw => (hfits w hw).1) fun w hw => (fits_iff (hfits w hw).1).1 (hfits w hw).2

/-- **Rows.** The translation of a row of stored sides fails exactly when an entry lacks its bound. The fault names the
first that does, if its weight can be written, which without a limit on digits it always can; otherwise the fault is that
it cannot. A row that does not fail has evidence that weighs constraints in the order of their ids, as the row weighs
their sides, so that all of them point upwards. -/
theorem row_translated (h : Reachable settings s) (limit : DigitLimit) (es : List (Rat × Nat))
    (hstored : ∀ e ∈ es, e.2 < s.store.size) :
    ((∃ fault, ofRow s.intervals s.restated (asRow es) limit = .error fault) ↔ ∃ e ∈ es, s.lacksBound e = true) ∧
      (∀ fault, ofRow s.intervals s.restated (asRow es) limit = .error fault → ∃ e, es.find? s.lacksBound = some e ∧
        (limit.writes e.1 = true ∧ fault = .missingBound e.2 e.1 ∨
          ∃ most, limit = some most ∧ limit.writes e.1 = false ∧ fault = .tooLongToWrite most)) ∧
      (limit = none → ((∃ side weight, ofRow s.intervals s.restated (asRow es) limit =
        .error (.missingBound side weight)) ↔ ∃ e ∈ es, s.lacksBound e = true)) ∧
      ∀ evidence, ofRow s.intervals s.restated (asRow es) limit = .ok evidence → ∃ ws, Translates s es evidence ws := by
  have hs := (Rightful.of_reachable h).registered
  cases hfirst : es.find? s.lacksBound with
  | some e =>
    have herror : ofRow s.intervals s.restated (asRow es) limit =
        .error (limit.explain [e.1] (.missingBound e.2 e.1)) := by
      rw [ofRow_asRow, termsOfRow, mapM_witnessed_error hs hstored hfirst]
      rfl
    have hlacks : ∃ e ∈ es, s.lacksBound e = true :=
      ⟨e, List.mem_of_find?_eq_some hfirst, List.find?_some hfirst⟩
    rw [herror]
    refine ⟨⟨fun _ => hlacks, fun _ => ⟨_, rfl⟩⟩, ?_, ?_, nofun⟩
    · intro fault hfault
      rw [← Except.error.inj hfault]
      refine ⟨e, rfl, ?_⟩
      rcases DigitLimit.explain_cases limit e.1 (.missingBound e.2 e.1) with hwrites | ⟨most, hlimit, hlong⟩
      · exact .inl hwrites
      · exact .inr ⟨most, hlimit, hlong⟩
    · rintro rfl
      exact ⟨fun _ => hlacks, fun _ => ⟨e.2, e.1, rfl⟩⟩
  | none =>
    rw [List.find?_eq_none] at hfirst
    have hheld : ∀ e ∈ es, s.lacksBound e = false := fun e he => Bool.eq_false_iff.2 (hfirst e he)
    have hnone : ¬∃ e ∈ es, s.lacksBound e = true := fun ⟨e, he, hlacks⟩ => hfirst e he hlacks
    obtain ⟨evidence, ws, hok, htranslates⟩ := ofRow_translates hs hstored hheld
    rw [hok]
    refine ⟨⟨nofun, fun hlacks => absurd hlacks hnone⟩, nofun, fun _ => ⟨nofun, fun hlacks => absurd hlacks hnone⟩, ?_⟩
    intro evidence' hevidence
    rw [← Except.ok.inj hevidence]
    exact ⟨ws, htranslates⟩

/-- `-2x - 2y = -8` with a negative scale, `x < 5`, and `z` without a bound -/
def slanted : List Call :=
  [.addVar "x", .addVar "y", .addVar "z",
    .addConstraint [(.number (-2), .id 0), (.number (-2), .id 1)] "=" (.number (-8)),
    .addConstraint [(.number 1, .id 0)] "<" (.number 5)]

/-- One row names side `x + y` with both signs, and both its weights fall to one equality; side `z` is free, but its
weight is zero. In the others its weight counts, once as a number of two digits and once as one of too many. -/
theorem slanted_is_translated :
    (∀ es ∈ [[((3 : Rat), 3), (2, 0), (-1, 3), (0, 2)], [(25, 2)], [(10 ^ 4300, 2)]], ∀ e ∈ es,
      e.2 < ((new {}).runCalls slanted).store.size) ∧
    ofRow ((new {}).runCalls slanted).intervals ((new {}).runCalls slanted).restated
      (asRow [(3, 3), (2, 0), (-1, 3), (0, 2)]) DigitLimit.usual = .ok [(-1, 0), (2, 1)] ∧
    (∃ ws, Translates ((new {}).runCalls slanted) [(3, 3), (2, 0), (-1, 3), (0, 2)] [(-1, 0), (2, 1)] ws) ∧
    ofRow ((new {}).runCalls slanted).intervals ((new {}).runCalls slanted).restated
      (asRow [(25, 2)]) DigitLimit.usual = .error (.missingBound 2 25) ∧
    ofRow ((new {}).runCalls slanted).intervals ((new {}).runCalls slanted).restated
      (asRow [(10 ^ 4300, 2)]) DigitLimit.usual = .error (.tooLongToWrite 4300) := by
  have hreachable := reachable_runCalls {} slanted
  have hstored : ∀ es ∈ [[((3 : Rat), 3), (2, 0), (-1, 3), (0, 2)], [(25, 2)], [(10 ^ 4300, 2)]], ∀ e ∈ es,
      e.2 < ((new {}).runCalls slanted).store.size := by decide +kernel
  have hok : ofRow ((new {}).runCalls slanted).intervals ((new {}).runCalls slanted).restated
      (asRow [(3, 3), (2, 0), (-1, 3), (0, 2)]) DigitLimit.usual = .ok [(-1, 0), (2, 1)] := by decide +kernel
  have hlacks : ((new {}).runCalls slanted).lacksBound (10 ^ 4300, 2) = true := by decide +kernel
  obtain ⟨hfails, htells, -⟩ := row_translated hreachable DigitLimit.usual [(10 ^ 4300, 2)] (hstored _ (by simp))
  obtain ⟨fault, hfault⟩ := hfails.2 ⟨_, List.mem_singleton_self _, hlacks⟩
  refine ⟨hstored, hok, ?_, by decide +kernel, ?_⟩
  · exact (row_translated hreachable _ _ (hstored _ (by simp))).2.2.2 _ hok
  · obtain ⟨e, hfirst, hcause⟩ := htells fault hfault
    rw [List.find?_cons_of_pos hlacks] at hfirst
    cases hfirst
    rcases hcause with ⟨hwrites, -⟩ | ⟨most, hmost, -, rfl⟩
    · exact absurd hwrites (DigitLimit.not_writes_pow (by norm_num))
    · cases hmost
      exact hfault

end Solver

end Halfspace
