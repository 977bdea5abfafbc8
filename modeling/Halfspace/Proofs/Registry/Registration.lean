/-
Registration keeps its invariant.

A variable brings a free side of its own. A constraint whose terms cancel brings no side, any other at most one; it is
folded into the interval of its side and leaves the other intervals alone. An empty interval stays empty, so that a
contradiction stays one.
- `registered_addVar`, `registered_register`: one registration;
- `registered_addConstraint`: a constraint as a caller gives it, if it is accepted.
-/
import Halfspace.Proofs.Fallible
import Halfspace.Proofs.Registry.Registered

namespace Halfspace

open LinearForm

theorem Interval.ofSide_concat (rs : List Restated) (r : Restated) (i : Nat) :
    ofSide (rs ++ [r]) i = if r.side = some i then (ofSide rs i).tighten r else ofSide rs i := by
  unfold ofSide
  rw [List.filter_append, List.foldl_append]
  split_ifs with h <;> simp [h]

theorem Interval.isEmpty_ofSide_concat {rs : List Restated} {i : Nat} (h : (ofSide rs i).isEmpty = true)
    (r : Restated) : (ofSide (rs ++ [r]) i).isEmpty = true := by
  rw [ofSide_concat]
  split_ifs
  · exact isEmpty_tighten h r
  · exact h

namespace Solver

variable {s : Solver} {c : Constraint}

/-- a contradiction stays one when constraints are appended and intervals only tighten -/
theorem Contradicts.mono {s' : Solver} {clash : Clash} (h : s.Contradicts clash) {tail : List Constraint}
    (hconstraints : s'.constraints = s.constraints ++ tail)
    (hintervals : ∀ (i : Nat) (interval : Interval), s.intervals[i]? = some interval → interval.isEmpty = true →
      ∃ interval' : Interval, s'.intervals[i]? = some interval' ∧ interval'.isEmpty = true) : s'.Contradicts clash := by
  cases clash with
  | side i =>
    obtain ⟨interval, hi, hempty⟩ := h
    exact hintervals i interval hi hempty
  | constraint id =>
    obtain ⟨c, hc, hfalse⟩ := h
    refine ⟨c, ?_, hfalse⟩
    rw [hconstraints, List.getElem?_append_left (List.getElem?_eq_some_iff.1 hc).1, hc]

/-- what is recorded after a registration: the old contradiction, or the one that was found -/
theorem noteClash_eq_some {found : Bool} {clash clash' : Clash} (h : s.noteClash found clash = some clash') :
    s.clash = some clash' ∨ (found = true ∧ clash' = clash) := by
  unfold noteClash at h
  split_ifs at h with hfound
  · exact Or.inr ⟨(Bool.and_eq_true_iff.1 hfound).1, (Option.some.inj h).symm⟩
  · exact Or.inl h

theorem noteClash_eq_none {found : Bool} {clash : Clash} (h : s.noteClash found clash = none) :
    s.clash = none ∧ found = false := by
  unfold noteClash at h
  split_ifs at h with hfound
  refine ⟨h, ?_⟩
  simpa [clash_eq_none_iff.1 h] using hfound

/-- a false constraint without variables is recorded if no contradiction was known -/
theorem clash_registerDegenerate (s : Solver) (c : Constraint) :
    (s.registerDegenerate c).clash = s.noteClash (!c.relation.holds 0 c.rhs) (.constraint c.id) := by
  unfold registerDegenerate noteClash
  split_ifs <;> rfl

/-- an interval that has become empty is recorded if no contradiction was known -/
theorem clash_registerOn (s : Solver) (c : Constraint) (store : FormStore) (i : Nat) (scale : Rat) :
    (s.registerOn c store i scale).clash =
      s.noteClash ((coverSides store s.intervals).getD i Interval.whole |>.tighten (c.restate (some i) scale)).isEmpty
        (.side i) := by
  simp only [registerOn, noteClash, clash]
  split_ifs with hfound
  · -- where no contradiction was known, there is no false constraint to be looked for first
    have hunknown : s.clashed = false := by simpa using (Bool.and_eq_true_iff.1 hfound).2
    rw [(clashed_eq_false_iff.1 hunknown).2]
  · rfl

/-! ## What is kept -/

/-- restated constraints stay confined to active variables when sides are appended -/
theorem Registered.confined_of_extends (h : Registered s) {store : FormStore} {side : LinearForm} {i : Nat}
    (hext : s.store.Extends store side i) {r : Restated} (hr : r ∈ s.restated) {j : Nat} (hj : r.side = some j) :
    ∀ t ∈ store.sides.getD j [], s.vars.isActive t.var = true := by
  intro t ht
  obtain ⟨form, hform⟩ : ∃ form, s.store.sides[j]? = some form := ⟨_, List.getElem?_eq_getElem (h.side_lt hr hj)⟩
  refine h.confined r hr j hj t ?_
  simp only [List.getD_eq_getElem?_getD, hext.getElem? hform] at ht
  simpa [List.getD_eq_getElem?_getD, hform] using ht

theorem Registered.terms_known_concat (h : Registered s)
    (hterms : ∀ t ∈ c.terms, 0 ≤ t.var ∧ t.var < s.vars.count) :
    ∀ c' ∈ s.constraints ++ [c], ∀ t ∈ c'.terms, 0 ≤ t.var ∧ t.var < s.vars.count := by
  intro c' hc'
  rcases List.mem_append.1 hc' with hc' | hc'
  · exact h.terms_known c' hc'
  · rw [List.mem_singleton.1 hc']
    exact hterms

theorem Registered.restates_concat (h : Registered s) {store : FormStore} {tail : List LinearForm}
    (hstore : store.sides = s.store.sides ++ tail) (hid : c.id = s.constraints.length) {r : Restated}
    (hnew : Restates store c r) : ∀ k c' r', (s.constraints ++ [c])[k]? = some c' → (s.restated ++ [r])[k]? = some r' →
      c'.id = k ∧ Restates store c' r' := by
  intro k c' r' hc' hr'
  rcases getElem?_concat_iff.1 hc' with hc' | ⟨rfl, rfl⟩ <;> rcases getElem?_concat_iff.1 hr' with hr' | ⟨hk, rfl⟩
  · obtain ⟨hid', hrestates⟩ := h.restates k c' r' hc' hr'
    exact ⟨hid', hrestates.mono hstore⟩
  · have := (List.getElem?_eq_some_iff.1 hc').1
    rw [hk, h.paired] at this
    omega
  · have := (List.getElem?_eq_some_iff.1 hr').1
    rw [h.paired] at this
    omega
  · exact ⟨hid, hnew⟩

/-- the intervals after one more constraint on side `i`, new sides covered first -/
theorem Registered.set_coverSides (h : Registered s) {store : FormStore} (hs : s.store.size ≤ store.size) {i : Nat}
    (hi : i < store.size) {r : Restated} (hr : r.side = some i) :
    (coverSides store s.intervals).set i ((Interval.ofSide s.restated i).tighten r) =
      (List.range store.size).map (Interval.ofSide (s.restated ++ [r])) := by
  refine List.ext_getElem? fun j => ?_
  rw [h.coverSides_eq hs, List.getElem?_set]
  by_cases hij : i = j
  · subst hij
    simp [hi, Interval.ofSide_concat, hr]
  · rw [if_neg hij]
    have hne : r.side ≠ some j := fun h => hij (Option.some.inj (hr.symm.trans h))
    by_cases hj : j < store.size <;> simp [hj, Interval.ofSide_concat, hne]

/-- an empty interval found before is found after one more constraint -/
theorem Registered.exists_isEmpty (h : Registered s) {store : FormStore} (hs : s.store.size ≤ store.size) (r : Restated)
    {j : Nat} {interval : Interval} (hj : s.intervals[j]? = some interval) (hempty : interval.isEmpty = true) :
    ∃ interval' : Interval, ((List.range store.size).map (Interval.ofSide (s.restated ++ [r])))[j]? = some interval' ∧
      interval'.isEmpty = true := by
  obtain ⟨hlt, rfl⟩ := h.eq_ofSide hj
  exact ⟨_, by simp [hlt.trans_le hs], Interval.isEmpty_ofSide_concat hempty r⟩

/-! ## Variables -/

/-- **Adding a variable.** -/
theorem registered_addVar (h : Registered s) (name : String) : Registered (s.addVar name) := by
  have hcount : (s.vars.add name).count = s.vars.count + 1 := by simp [Variables.add, Variables.count]
  obtain ⟨i, store, hplace, hext⟩ := FormStore.place_spec [⟨1, (s.vars.count : Int)⟩] h.distinct
    (by rw [normalize_unit]; simp)
  simp only [normalize_unit] at hplace hext
  have hadd : s.addVar name = { s with
      vars := s.vars.add name
      store := store
      intervals := coverSides store s.intervals
      varSides := s.varSides ++ [i] } := by
    simp [addVar, FormStore.placeVar, hplace]
  have hintervals := h.coverSides_eq hext.le_size
  rw [hadd]
  constructor
  case normal =>
    intro side hside
    rcases hext.mem side hside with hside | rfl
    · exact h.normal side hside
    · exact isSide_unit _
  case distinct => exact hext.distinct
  case known =>
    intro side hside t ht
    simp only [hcount]
    rcases hext.mem side hside with hside | rfl
    · have := h.known side hside t ht
      omega
    · rw [List.mem_singleton.1 ht]
      constructor <;> push_cast <;> omega
  case in_use =>
    intro side hside htrivial t ht
    rcases hext.mem side hside with hside | rfl
    · exact h.in_use side hside htrivial t ht
    · simp [isTrivial] at htrivial
  case varSides_length => simp [hcount, h.varSides_length]
  case varSide =>
    intro x hx
    simp only [hcount] at hx
    rcases Nat.lt_succ_iff_lt_or_eq.1 hx with hlt | rfl
    · obtain ⟨j, hj, hside⟩ := h.varSide x hlt
      exact ⟨j, getElem?_concat_iff.2 (Or.inl hj), hext.getElem? hside⟩
    · exact ⟨i, getElem?_concat_iff.2 (Or.inr ⟨h.varSides_length.symm, rfl⟩), hext.stored⟩
  case terms_known =>
    intro c hc t ht
    have := h.terms_known c hc t ht
    simp only [hcount]
    omega
  case paired => exact h.paired
  case restates =>
    intro k c r hc hr
    obtain ⟨tail, htail⟩ := hext.appended
    obtain ⟨hid, hrestates⟩ := h.restates k c r hc hr
    exact ⟨hid, hrestates.mono htail⟩
  case confined => exact fun r hr j hj => h.confined_of_extends hext hr hj
  case intervals => exact hintervals
  case clash_sound =>
    intro clash hclash
    refine Contradicts.mono (h.clash_sound clash hclash) (List.append_nil _).symm fun j interval hj hempty =>
      ⟨interval, ?_, hempty⟩
    show (coverSides store s.intervals)[j]? = some interval
    rw [coverSides, List.getElem?_append_left (List.getElem?_eq_some_iff.1 hj).1, hj]
  case clash_complete => exact h.clash_complete

/-! ## Constraints -/

theorem registered_registerDegenerate (h : Registered s) (hid : c.id = s.constraints.length)
    (hterms : ∀ t ∈ c.terms, 0 ≤ t.var ∧ t.var < s.vars.count) (hcancels : ∀ v, c.terms.eval v = 0) :
    Registered (s.registerDegenerate c) := by
  have hside : ∀ i, Interval.ofSide (s.restated ++ [c.degenerate]) i = Interval.ofSide s.restated i := by
    intro i
    rw [Interval.ofSide_concat, if_neg (by simp [Constraint.degenerate])]
  constructor
  case normal => exact h.normal
  case distinct => exact h.distinct
  case known => exact h.known
  case in_use => exact h.in_use
  case varSides_length => exact h.varSides_length
  case varSide => exact h.varSide
  case terms_known => exact h.terms_known_concat hterms
  case paired => simp [registerDegenerate, h.paired]
  case restates => exact h.restates_concat (List.append_nil _).symm hid (.degenerate hcancels)
  case confined =>
    intro r hr i hi
    rcases List.mem_append.1 hr with hr | hr
    · exact h.confined r hr i hi
    · rw [List.mem_singleton.1 hr] at hi
      cases hi
  case intervals =>
    show s.intervals = (List.range s.store.size).map (Interval.ofSide (s.restated ++ [c.degenerate]))
    rw [h.intervals]
    exact List.map_congr_left fun i _ => (hside i).symm
  case clash_sound =>
    intro clash hclash
    rw [clash_registerDegenerate] at hclash
    rcases noteClash_eq_some hclash with hold | ⟨hfalse, rfl⟩
    · exact Contradicts.mono (h.clash_sound clash hold) rfl fun j interval hj hempty => ⟨interval, hj, hempty⟩
    · exact ⟨c, getElem?_concat_iff.2 (Or.inr ⟨hid, rfl⟩), rfl, hcancels, by simpa using hfalse⟩
  case clash_complete =>
    intro hclash
    rw [clash_registerDegenerate] at hclash
    obtain ⟨hold, hfalse⟩ := noteClash_eq_none hclash
    obtain ⟨hempty, hdegenerate⟩ := h.clash_complete hold
    refine ⟨fun i => (congrArg Interval.isEmpty (hside i)).trans (hempty i), fun r hr hnone => ?_⟩
    rcases List.mem_append.1 hr with hr | hr
    · exact hdegenerate r hr hnone
    · rw [List.mem_singleton.1 hr]
      simpa [Restated.holds, Constraint.degenerate] using hfalse

theorem registered_registerOn (h : Registered s) {store : FormStore} {side : LinearForm} {scale : Rat} {i : Nat}
    (hid : c.id = s.constraints.length) (hterms : ∀ t ∈ c.terms, 0 ≤ t.var ∧ t.var < s.vars.count)
    (hext : s.store.Extends store side i) (hside : side.IsSide) (hvars : ∀ t ∈ side, ∃ u ∈ c.terms, t.var = u.var)
    (hscale : scale ≠ 0) (hmultiple : ∀ v, c.terms.eval v = scale * side.eval v) :
    Registered (s.registerOn c store i scale) := by
  have hgetD : store.sides.getD i [] = side := by simp [List.getD_eq_getElem?_getD, hext.stored]
  have hi : i < store.size := (List.getElem?_eq_some_iff.1 hext.stored).1
  have hcover := h.coverSides_eq hext.le_size
  have hinterval : (coverSides store s.intervals).getD i Interval.whole = Interval.ofSide s.restated i := by
    simp [hcover, List.getD_eq_getElem?_getD, hi]
  set r := c.restate (some i) scale with hr
  have hrside : r.side = some i := rfl
  have hon : s.registerOn c store i scale = { s with
      vars := side.foldl (fun v t => v.markActive t.var) s.vars
      store := store
      intervals := (coverSides store s.intervals).set i ((Interval.ofSide s.restated i).tighten r)
      constraints := s.constraints ++ [c]
      restated := s.restated ++ [r]
      emptySide :=
        if ((Interval.ofSide s.restated i).tighten r).isEmpty && !s.clashed then some i else s.emptySide } := by
    simp only [registerOn, hgetD, hinterval, ← hr]
  have hnote := clash_registerOn s c store i scale
  rw [hinterval, ← hr, hon] at hnote
  have hintervals := h.set_coverSides hext.le_size hi hrside
  rw [hon]
  constructor
  case normal =>
    intro form hform
    rcases hext.mem form hform with hform | rfl
    · exact h.normal form hform
    · exact hside
  case distinct => exact hext.distinct
  case known =>
    intro form hform t ht
    simp only [Variables.count_foldl]
    rcases hext.mem form hform with hform | rfl
    · exact h.known form hform t ht
    · obtain ⟨u, hu, hvar⟩ := hvars t ht
      exact hvar ▸ hterms u hu
  case in_use =>
    intro form hform htrivial t ht
    rw [Variables.isActive_foldl]
    rcases hext.mem form hform with hform | rfl
    · exact Or.inr (h.in_use form hform htrivial t ht)
    · exact Or.inl ⟨t, ht, rfl⟩
  case varSides_length => simpa only [Variables.count_foldl] using h.varSides_length
  case varSide =>
    intro x hx
    simp only [Variables.count_foldl] at hx
    obtain ⟨j, hj, hform⟩ := h.varSide x hx
    exact ⟨j, hj, hext.getElem? hform⟩
  case terms_known =>
    simp only [Variables.count_foldl]
    exact h.terms_known_concat hterms
  case paired => simp [h.paired]
  case restates =>
    obtain ⟨tail, htail⟩ := hext.appended
    exact h.restates_concat htail hid (.about hext.stored hscale hmultiple)
  case confined =>
    intro r' hr' j hj t ht
    rw [Variables.isActive_foldl]
    rcases List.mem_append.1 hr' with hr' | hr'
    · exact Or.inr (h.confined_of_extends hext hr' hj t ht)
    · rw [List.mem_singleton.1 hr', hrside] at hj
      cases hj
      rw [hgetD] at ht
      exact Or.inl ⟨t, ht, rfl⟩
  case intervals => exact hintervals
  case clash_sound =>
    intro clash hclash
    rw [hnote] at hclash
    rcases noteClash_eq_some hclash with hold | ⟨hempty, rfl⟩
    · refine Contradicts.mono (h.clash_sound clash hold) rfl fun j interval hj hempty => ?_
      simp only [hintervals]
      exact h.exists_isEmpty hext.le_size r hj hempty
    · refine ⟨_, ?_, hempty⟩
      have hlen : i < (coverSides store s.intervals).length := by simpa [hcover] using hi
      simp [hlen]
  case clash_complete =>
    intro hclash
    rw [hnote] at hclash
    obtain ⟨hold, hempty⟩ := noteClash_eq_none hclash
    obtain ⟨hempty', hdegenerate⟩ := h.clash_complete hold
    refine ⟨fun j => ?_, fun r' hr' hnone => ?_⟩
    · rw [Interval.ofSide_concat]
      split_ifs with hj
      · rw [hrside] at hj
        cases hj
        exact hempty
      · exact hempty' j
    · rcases List.mem_append.1 hr' with hr' | hr'
      · exact hdegenerate r' hr' hnone
      · rw [List.mem_singleton.1 hr', hrside] at hnone
        cases hnone

/-- **Adding a constraint.** -/
theorem registered_register (h : Registered s) {terms : LinearForm} (relation : Relation) (rhs : Rat)
    (hterms : ∀ t ∈ terms, 0 ≤ t.var ∧ t.var < s.vars.count) : Registered (s.register terms relation rhs) := by
  unfold register
  by_cases hvanish : terms.normalize.form = []
  · have hcancels : ∀ v, terms.eval v = 0 := (collect_eq_nil_iff terms).1 ((normalize_form_eq_nil_iff terms).1 hvanish)
    simp only [FormStore.place_of_vanishing hvanish]
    have hregistered :=
      registered_registerDegenerate (c := ⟨s.constraints.length, terms, relation, rhs⟩) h rfl hterms hcancels
    exact hregistered.congr rfl rfl rfl rfl rfl rfl rfl
  · obtain ⟨i, store, hplace, hext⟩ := FormStore.place_spec terms h.distinct hvanish
    simp only [hplace]
    exact (registered_registerOn (c := ⟨s.constraints.length, terms, relation, rhs⟩) h rfl hterms hext
      (isSide_normalize hvanish) (fun t ht => var_of_mem_normalize ht) (scale_normalize_ne_zero terms)
      fun v => eval_normalize v terms).congr rfl rfl rfl rfl rfl rfl rfl

theorem settings_register (s : Solver) (terms : LinearForm) (relation : Relation) (rhs : Rat) :
    (s.register terms relation rhs).settings = s.settings := by
  unfold register
  dsimp only
  split <;> rfl

/-! ## Constraints as callers give them -/

theorem readTerm_known {vars : Variables} {limit : DigitLimit} {t : Numeral × VarRef} {u : Term}
    (h : readTerm vars limit t = .ok u) : 0 ≤ u.var ∧ u.var < vars.count := by
  unfold readTerm at h
  split at h
  · cases h
  · rename_i x hx
    have hlt : x < vars.count := by
      unfold Variables.position? at hx
      split at hx
      · split_ifs at hx with hin
        rw [← Option.some.inj hx]
        omega
      · cases hx
    obtain ⟨c, -, h⟩ := bind_eq_ok_iff.1 h
    rw [← Except.ok.inj h]
    exact ⟨Int.natCast_nonneg x, Int.ofNat_lt.2 hlt⟩

theorem addConstraint_ok {terms : List (Numeral × VarRef)} {relation : String} {rhs : Numeral} {s' : Solver}
    (h : s.addConstraint terms relation rhs = .ok s') :
    ∃ (form : LinearForm) (rel : Relation) (q : Rat),
      (∀ t ∈ form, 0 ≤ t.var ∧ t.var < s.vars.count) ∧ s' = s.register form rel q := by
  obtain ⟨rel, -, h⟩ := bind_eq_ok_iff.1 h
  obtain ⟨form, hform, h⟩ := bind_eq_ok_iff.1 h
  obtain ⟨q, -, h⟩ := bind_eq_ok_iff.1 h
  exact ⟨form, rel, q, forall_of_mapM (fun _ _ => readTerm_known) hform, (Except.ok.inj h).symm⟩

theorem registered_addConstraint (h : Registered s) {terms : List (Numeral × VarRef)} {relation : String}
    {rhs : Numeral} {s' : Solver} (hs' : s.addConstraint terms relation rhs = .ok s') : Registered s' := by
  obtain ⟨form, rel, q, hform, rfl⟩ := addConstraint_ok hs'
  exact registered_register h rel q hform

end Solver

end Halfspace
