/-
A constraint is registered as a whole or not at all.

Written in place (`Edit.addConstraint`), a registration could leave a solver half changed. It does not: the arguments
are read before anything is written, and once they are read nothing fails, for a side that is found has an interval and
a scale other than zero (`Edit.run_record`). What is refused is malformed, and what is malformed is refused
(`malformed_of_given`, `not_malformed_of_given`). What is accepted enlarges the solver (`Enlarged`): lists grow at their
ends, one interval tightens, and all else but the answers stays as it was.
- `Edit.run_addConstraint`: both ways to register a constraint agree;
- `Interval.narrows_tighten`: how an interval changes;
- `Registered.enlarged_register`: how a solver changes;
- `addConstraint_atomic`: all of it, for every reachable state.
-/
import Halfspace.Proofs.Contradictions
import Halfspace.Proofs.Limits
import Halfspace.Proofs.Registry.Merging
import Halfspace.Solver.Edit

namespace Halfspace

open LinearForm

/-! ## Parts of a registration -/

/-- every end of an interval is kept or moved inward -/
structure Interval.Narrows (i i' : Interval) : Prop where
  low : ∀ l, i.low = some l → ∃ l', i'.low = some l' ∧ l.lowDelta ≤ l'.lowDelta
  upper : ∀ u, i.upper = some u → ∃ u', i'.upper = some u' ∧ u'.upperDelta ≤ u.upperDelta

theorem Interval.narrows_tighten (i : Interval) (r : Restated) : i.Narrows (i.tighten r) where
  low l hl := by
    rw [low_tighten_eq]
    cases r.lowLimit? with
    | none => exact ⟨l, hl, le_rfl⟩
    | some l' =>
      by_cases hraises : i.raisesLow l' = true
      · refine ⟨l', by simp [hraises], ?_⟩
        rw [raisesLow_eq, hl] at hraises
        exact (of_decide_eq_true hraises).le
      · exact ⟨l, by simp [hraises, hl], le_rfl⟩
  upper u hu := by
    rw [upper_tighten_eq]
    cases r.upperLimit? with
    | none => exact ⟨u, hu, le_rfl⟩
    | some u' =>
      by_cases hlowers : i.lowersUpper u' = true
      · refine ⟨u', by simp [hlowers], ?_⟩
        rw [lowersUpper_eq, hu] at hlowers
        exact (of_decide_eq_true hlowers).le
      · exact ⟨u, by simp [hlowers, hu], le_rfl⟩

theorem Constraint.restate?_of_ne_zero (c : Constraint) (side : Option Nat) {scale : Rat} (h : scale ≠ 0) :
    c.restate? side scale = .ok (c.restate side scale) := by simp [restate?, h]

/-- placing a form leaves the store alone, or appends the normal form -/
theorem FormStore.place_cases (s : FormStore) (form : LinearForm) : (s.place form).store = s ∨
    (s.place form).side = some s.size ∧ (s.place form).store.sides = s.sides ++ [form.normalize.form] := by
  unfold place
  cases s.find? form with
  | some i => exact .inl rfl
  | none =>
    dsimp only
    split
    · exact .inl rfl
    · exact .inr ⟨rfl, rfl⟩

namespace Solver

variable {α β : Type} {s s' : Solver} {c : Constraint} {terms : List (Numeral × VarRef)} {relation : String}
  {rhs : Numeral} {settings : Settings}

/-! ## Reading arguments -/

/-- the constraint that a caller means -/
def given (s : Solver) (terms : List (Numeral × VarRef)) (relation : String) (rhs : Numeral) :
    Except Fault Constraint := do
  let relation ← Relation.read relation
  let terms ← terms.mapM (readTerm s.vars s.settings.digitLimit)
  return ⟨s.constraints.length, terms, relation, ← rhs.value s.settings.digitLimit⟩

theorem addConstraint_eq_map (s : Solver) (terms : List (Numeral × VarRef)) (relation : String) (rhs : Numeral) :
    s.addConstraint terms relation rhs =
      (s.given terms relation rhs).map fun c => s.register c.terms c.relation c.rhs := by
  unfold addConstraint given
  cases Relation.read relation with
  | error fault => rfl
  | ok relation =>
    cases terms.mapM (readTerm s.vars s.settings.digitLimit) with
    | error fault => rfl
    | ok terms => cases rhs.value s.settings.digitLimit <;> rfl

theorem given_eq_ok_iff : s.given terms relation rhs = .ok c ↔
    c.id = s.constraints.length ∧ Relation.read relation = .ok c.relation ∧
      List.Forall₂ (fun t u => readTerm s.vars s.settings.digitLimit t = .ok u) terms c.terms ∧
      rhs.value s.settings.digitLimit = .ok c.rhs := by
  unfold given
  simp only [bind_eq_ok_iff, mapM_eq_ok_iff]
  constructor
  · rintro ⟨rel, hrel, form, hform, q, hq, h⟩
    cases h
    exact ⟨rfl, hrel, hform, hq⟩
  · rintro ⟨hid, hrel, hform, hq⟩
    exact ⟨_, hrel, _, hform, _, hq, by rw [← hid]; rfl⟩

/-- what a caller can get wrong in a constraint, and the fault that says so -/
inductive Malformed (s : Solver) (terms : List (Numeral × VarRef)) (relation : String) (rhs : Numeral) :
    Fault → Prop where
  | badRelation (h : ∀ r : Relation, r.symbol ≠ relation) : Malformed s terms relation rhs (.badRelation relation)
  | unknownVariable {t : Numeral × VarRef} (ht : t ∈ terms) (h : s.vars.contains t.2 = false) :
      Malformed s terms relation rhs (.unknownVariable t.2)
  | badCoefficient {t : Numeral × VarRef} {fault : Fault} (ht : t ∈ terms)
      (h : t.1.value s.settings.digitLimit = .error fault) : Malformed s terms relation rhs fault
  | badRightSide {fault : Fault} (h : rhs.value s.settings.digitLimit = .error fault) :
      Malformed s terms relation rhs fault

theorem readTerm_ends (vars : Variables) (limit : DigitLimit) (t : Numeral × VarRef) :
    Ends (fun _ => vars.contains t.2 = true ∧ ∃ q, t.1.value limit = .ok q)
      (fun fault => (vars.contains t.2 = false ∧ fault = .unknownVariable t.2) ∨ t.1.value limit = .error fault)
      (readTerm vars limit t) := by
  unfold readTerm Variables.contains
  cases vars.position? t.2 with
  | none => exact .inl ⟨rfl, rfl⟩
  | some x =>
    cases t.1.value limit with
    | error fault => exact .inr rfl
    | ok q => exact ⟨rfl, q, rfl⟩

theorem relation_ends (word : String) :
    Ends (fun r => r.symbol = word) (fun fault => fault = .badRelation word ∧ ∀ r : Relation, r.symbol ≠ word)
      (Relation.read word) := by
  unfold Relation.read
  cases hfind : Relation.all.find? (·.symbol = word) with
  | some r =>
    show r.symbol = word
    simpa using List.find?_some hfind
  | none =>
    refine ⟨rfl, fun r hr => ?_⟩
    have hmem : r ∈ Relation.all := by cases r <;> decide
    exact absurd (decide_eq_true hr) (List.find?_eq_none.1 hfind r hmem)

/-- **What is refused** is malformed, and the fault says how. -/
theorem malformed_of_given {fault : Fault} (h : s.given terms relation rhs = .error fault) :
    Malformed s terms relation rhs fault := by
  have hends : Ends (fun _ => True) (Malformed s terms relation rhs) (s.given terms relation rhs) := by
    refine ((relation_ends relation).imp (fun _ h => h) ?_).bind fun rel _ => ?_
    · rintro _ ⟨rfl, hnone⟩
      exact .badRelation hnone
    · refine (Ends.mapM (R := fun _ _ => True) fun t ht => ?_).bind fun form _ => ?_
      · refine (readTerm_ends s.vars s.settings.digitLimit t).imp (fun _ _ => trivial) ?_
        rintro fault (⟨hunknown, rfl⟩ | hvalue)
        · exact .unknownVariable ht hunknown
        · exact .badCoefficient ht hvalue
      · cases hvalue : rhs.value s.settings.digitLimit with
        | ok q => exact trivial
        | error fault => exact .badRightSide hvalue
  rw [h] at hends
  exact hends

/-- **What is malformed** is refused. -/
theorem not_malformed_of_given (h : s.given terms relation rhs = .ok c) (fault : Fault) :
    ¬Malformed s terms relation rhs fault := by
  obtain ⟨-, hrelation, hterms, hrhs⟩ := given_eq_ok_iff.1 h
  have hread : ∀ t ∈ terms, s.vars.contains t.2 = true ∧ ∃ q, t.1.value s.settings.digitLimit = .ok q := by
    intro t ht
    obtain ⟨u, -, hu⟩ := exists_of_forall₂ hterms.flip ht
    have hends := readTerm_ends s.vars s.settings.digitLimit t
    rwa [hu] at hends
  intro hmalformed
  cases hmalformed with
  | badRelation hnone =>
    have hends := relation_ends relation
    rw [hrelation] at hends
    exact hnone _ hends
  | unknownVariable ht hunknown => exact absurd ((hread _ ht).1.symm.trans hunknown) (by decide)
  | badCoefficient ht hvalue =>
    obtain ⟨q, hq⟩ := (hread _ ht).2
    cases hq.symm.trans hvalue
  | badRightSide hvalue => cases hrhs.symm.trans hvalue

/-! ## Registering in place -/

namespace Edit

/-- the result of an edit that writes nothing -/
def unchanged (s : Solver) : Except Fault α → EStateM.Result Fault Solver α
  | .ok a => .ok a s
  | .error fault => .error fault s

/-- edits that write nothing, one after another -/
theorem bind_unchanged {m : Edit α} {f : α → Edit β} {x : Except Fault α} {g : α → Except Fault β}
    (h : m.run s = unchanged s x) (hf : ∀ a, (f a).run s = unchanged s (g a)) :
    (m >>= f).run s = unchanged s (x >>= g) := by
  rw [EStateM.run_bind, h]
  cases x with
  | ok a => exact hf a
  | error fault => rfl

theorem run_ofExcept (x : Except Fault α) (s : Solver) :
    EStateM.run (MonadExcept.ofExcept x : Edit α) s = unchanged s x := by
  cases x <;> rfl

theorem run_readTerms (terms : List (Numeral × VarRef)) (s : Solver) :
    (readTerms terms).run s = unchanged s (terms.mapM (readTerm s.vars s.settings.digitLimit)) := by
  unfold readTerms
  induction terms with
  | nil => rfl
  | cons t rest ih =>
    rw [List.mapM_cons, List.mapM_cons]
    exact bind_unchanged (run_ofExcept (readTerm s.vars s.settings.digitLimit t) s) fun _ => bind_unchanged ih fun _ => rfl

/-- reading writes nothing, however far it comes -/
theorem run_read (terms : List (Numeral × VarRef)) (relation : String) (rhs : Numeral) (s : Solver) :
    (read terms relation rhs).run s = unchanged s (s.given terms relation rhs) :=
  bind_unchanged (run_ofExcept (Relation.read relation) s) fun _ =>
    bind_unchanged (run_readTerms terms s) fun _ =>
      bind_unchanged (run_ofExcept (rhs.value s.settings.digitLimit) s) fun _ => rfl

theorem run_place (form : LinearForm) (s : Solver) : (place form).run s = .ok (s.store.place form)
    { s with
      store := (s.store.place form).store
      intervals := coverSides (s.store.place form).store s.intervals } := rfl

theorem run_record_none (c : Constraint) (store : FormStore) (scale : Rat) (s : Solver) :
    (record c ⟨store, none, scale⟩).run s = .ok ()
      { s with
        restated := s.restated ++ [c.degenerate]
        falseConstraint := if !c.relation.holds 0 c.rhs && !s.clashed then some c.id else s.falseConstraint } := rfl

/-- writing down what a constraint says about its side fails neither at the scale nor at the interval -/
theorem run_record (c : Constraint) (store : FormStore) {side : Nat} {scale : Rat} {interval : Interval}
    (hscale : scale ≠ 0) (hside : s.intervals[side]? = some interval) :
    (record c ⟨store, some side, scale⟩).run s = .ok ()
      { s with
        vars := (s.store.sides.getD side []).foldl (fun v t => v.markActive t.var) s.vars
        restated := s.restated ++ [c.restate (some side) scale]
        intervals := s.intervals.set side (interval.tighten (c.restate (some side) scale))
        emptySide :=
          if (interval.tighten (c.restate (some side) scale)).isEmpty && !s.clashed then some side
          else s.emptySide } := by
  simp only [record, activate, confine, appendRestated, EStateM.run_bind, EStateM.run_modify, EStateM.run_get,
    c.restate?_of_ne_zero _ hscale, run_ofExcept, fetch_natCast hside, unchanged]
  rfl

/-- once the constraint is read, all is written -/
theorem run_write (h : Registered s) (hid : c.id = s.constraints.length) :
    EStateM.run (do
      append c
      record c (← place c.terms)
      modify forget
      return c.id : Edit Nat) s = .ok s.constraints.length (s.register c.terms c.relation c.rhs) := by
  have hc : (⟨s.constraints.length, c.terms, c.relation, c.rhs⟩ : Constraint) = c := by rw [← hid]
  unfold register
  rw [hc, ← hid]
  simp only [EStateM.run_bind, EStateM.run_modify, append, run_place]
  by_cases hvanish : c.terms.normalize.form = []
  · have hcover : coverSides s.store s.intervals = s.intervals := by rw [h.coverSides_eq le_rfl, h.intervals]
    simp only [FormStore.place_of_vanishing (s := s.store) hvanish, hcover, run_record_none]
    rfl
  · obtain ⟨i, store, hplace, hext⟩ := FormStore.place_spec c.terms h.distinct hvanish
    have hi : i < store.size := (List.getElem?_eq_some_iff.1 hext.stored).1
    have hinterval : (coverSides store s.intervals)[i]? =
        some ((coverSides store s.intervals).getD i Interval.whole) := by
      simp [h.coverSides_eq hext.le_size, List.getD_eq_getElem?_getD, hi]
    simp only [hplace]
    rw [run_record c store (scale_normalize_ne_zero c.terms) hinterval]
    rfl

/-- **All or nothing.** A registration that is written in place ends with the solver that `Solver.addConstraint` makes,
or with the one that was there. -/
theorem run_addConstraint (h : Registered s) (terms : List (Numeral × VarRef)) (relation : String) (rhs : Numeral) :
    (Edit.addConstraint terms relation rhs).run s =
      match s.addConstraint terms relation rhs with
      | .ok s' => .ok s.constraints.length s'
      | .error fault => .error fault s := by
  rw [addConstraint_eq_map, Edit.addConstraint, EStateM.run_bind, run_read]
  cases hgiven : s.given terms relation rhs with
  | error fault => rfl
  | ok c => exact run_write h (given_eq_ok_iff.1 hgiven).1

end Edit

/-! ## What a constraint changes -/

theorem store_register (s : Solver) (form : LinearForm) (relation : Relation) (q : Rat) :
    (s.register form relation q).store = (s.store.place form).store := by
  unfold register
  dsimp only
  split
  · rename_i hnone
    rcases s.store.place_cases form with hsame | ⟨hside, -⟩
    · exact hsame.symm
    · cases hnone.symm.trans hside
  · rfl

theorem restated_register (s : Solver) (form : LinearForm) (relation : Relation) (q : Rat) :
    ∃ r, (s.register form relation q).restated = s.restated ++ [r] ∧ r.side = (s.store.place form).side := by
  unfold register
  dsimp only
  split
  · rename_i hnone
    exact ⟨_, rfl, hnone.symm⟩
  · rename_i side hside
    exact ⟨_, rfl, hside.symm⟩

theorem varSides_register (s : Solver) (form : LinearForm) (relation : Relation) (q : Rat) :
    (s.register form relation q).varSides = s.varSides := by
  unfold register
  dsimp only
  split <;> rfl

theorem pivots_register (s : Solver) (form : LinearForm) (relation : Relation) (q : Rat) :
    (s.register form relation q).pivots = s.pivots := by
  unfold register
  dsimp only
  split <;> rfl

/-- a solver that has one constraint more, and what has changed with it -/
structure Enlarged (s s' : Solver) (c : Constraint) (r : Restated) : Prop where
  constraints : s'.constraints = s.constraints ++ [c]
  restated : s'.restated = s.restated ++ [r]
  restates : Restates s'.store c r
  own : ∀ i, r.side = some i → s'.store.sides[i]? = some c.terms.normalize.form
  sides : s'.store.sides = s.store.sides ∨
    r.side = some s.store.size ∧ s'.store.sides = s.store.sides ++ [c.terms.normalize.form]
  others : ∀ i, r.side ≠ some i → s'.intervals[i]? = s.intervals[i]?
  tightened : ∀ i, r.side = some i → ∃ new, s'.intervals[i]? = some new ∧
    (s.intervals.getD i Interval.whole).Narrows new ∧
    ∀ q, new.contains q = true ↔ (s.intervals.getD i Interval.whole).contains q = true ∧ r.holds q = true
  active : ∀ x, s'.vars.isActive x = true ↔ c.terms.coefficient x ≠ 0 ∨ s.vars.isActive x = true
  activeWords : s'.vars.activeWords = s.vars.activeWords
  names : s'.vars.names = s.vars.names
  varSides : s'.varSides = s.varSides
  settings : s'.settings = s.settings
  pivots : s'.pivots = s.pivots
  record : s.clashed = true → s'.record = s.record
  forgotten : s'.forget = s'

/-- **Registering.** -/
theorem Registered.enlarged_register (h : Registered s) {form : LinearForm} (relation : Relation) (q : Rat)
    (hform : ∀ t ∈ form, 0 ≤ t.var ∧ t.var < s.vars.count) :
    ∃ r, Enlarged s (s.register form relation q) ⟨s.constraints.length, form, relation, q⟩ r := by
  have h' := registered_register h relation q hform
  have hconstraints := constraints_register s form relation q
  have hstore := store_register s form relation q
  obtain ⟨r, hrestated, hside⟩ := restated_register s form relation q
  obtain ⟨s'', hforget⟩ := register_eq_forget s form relation q
  have hrecord := fun hclashed => record_register (s := s) hclashed form relation q
  have hsides := s.store.place_cases form
  rw [← hstore, ← hside] at hsides
  have hactive := fun x => isActive_register h form relation q (x := x)
  have hwords := activeWords_register s form relation q
  have hnames := names_register s form relation q
  have hvarSides := varSides_register s form relation q
  have hsettings := settings_register s form relation q
  have hpivots := pivots_register s form relation q
  generalize s.register form relation q = s' at *
  have hlast : s'.constraints[s.constraints.length]? = some ⟨s.constraints.length, form, relation, q⟩ := by
    simp [hconstraints]
  have hlast' : s'.restated[s.constraints.length]? = some r := by simp [hrestated, ← h.paired]
  obtain ⟨-, hrestates⟩ := h'.restates _ _ r hlast hlast'
  have hsize : s.store.size ≤ s'.store.size := by
    rcases hsides with hsame | ⟨-, happended⟩
    · rw [hsame]
    · simp [FormStore.size, happended]
  -- the intervals before and after are those of the restated constraints, and these differ by one
  have hbefore : ∀ i, s.intervals.getD i Interval.whole = Interval.ofSide s.restated i := by
    intro i
    by_cases hi : i < s.store.size
    · simp [h.intervals, List.getD_eq_getElem?_getD, hi]
    · simp [h.intervals, List.getD_eq_getElem?_getD, hi, h.ofSide_eq_whole (not_lt.1 hi)]
  refine ⟨r, ?_⟩
  constructor
  case constraints => exact hconstraints
  case restated => exact hrestated
  case restates => exact hrestates
  case own => exact (hrestates.eq_restate h'.normal h'.distinct).2
  case sides => exact hsides.imp (congrArg FormStore.sides) id
  case others =>
    intro i hi
    rw [h'.intervals, h.intervals, hrestated]
    by_cases hlt : i < s.store.size
    · simp [hlt, hlt.trans_le hsize, Interval.ofSide_concat, hi]
    · have hge : ¬i < s'.store.size := by
        rcases hsides with hsame | ⟨hnew, happended⟩
        · rwa [hsame]
        · have hne : i ≠ s.store.size := fun heq => hi (heq ▸ hnew)
          simp only [FormStore.size, happended, List.length_append, List.length_singleton] at hlt hne ⊢
          omega
      simp [hlt, hge]
  case tightened =>
    intro i hi
    have hlt : i < s'.store.size := hrestates.side_lt hi
    refine ⟨(Interval.ofSide s.restated i).tighten r, ?_, ?_, fun v => ?_⟩
    · simp [h'.intervals, hlt, hrestated, Interval.ofSide_concat, hi]
    · rw [hbefore]
      exact Interval.narrows_tighten _ r
    · rw [hbefore]
      exact Interval.contains_tighten
  case active => exact hactive
  case activeWords => exact hwords
  case names => exact hnames
  case varSides => exact hvarSides
  case settings => exact hsettings
  case pivots => exact hpivots
  case record => exact hrecord
  case forgotten =>
    rw [hforget]
    rfl

/-! ## Any constraint in any state -/

/-- how the registration of a constraint ends: refused with nothing written, or accepted with one constraint more -/
structure Atomic (s : Solver) (terms : List (Numeral × VarRef)) (relation : String) (rhs : Numeral) : Prop where
  inPlace : (Edit.addConstraint terms relation rhs).run s =
    match s.addConstraint terms relation rhs with
    | .ok s' => .ok s.constraints.length s'
    | .error fault => .error fault s
  refused : ∀ fault t, (Edit.addConstraint terms relation rhs).run s = .error fault t →
    t = s ∧ s.after (.addConstraint terms relation rhs) = s ∧ Malformed s terms relation rhs fault
  accepted : ∀ id t, (Edit.addConstraint terms relation rhs).run s = .ok id t →
    id = s.constraints.length ∧ s.after (.addConstraint terms relation rhs) = t ∧
      ∃ c r, s.given terms relation rhs = .ok c ∧ Enlarged s t c r
  refused_iff : (∃ fault t, (Edit.addConstraint terms relation rhs).run s = .error fault t) ↔
    ∃ fault, Malformed s terms relation rhs fault

/-- **Registration is atomic.** In every reachable state and for all arguments, a constraint that is refused leaves the
solver as it was, and one that is accepted enlarges it. It is refused exactly when something in it is malformed. -/
theorem addConstraint_atomic (h : Reachable settings s) (terms : List (Numeral × VarRef)) (relation : String)
    (rhs : Numeral) : Atomic s terms relation rhs := by
  have hs := (Rightful.of_reachable h).registered
  have hrun := Edit.run_addConstraint hs terms relation rhs
  cases hgiven : s.given terms relation rhs with
  | error fault =>
    have hadd : s.addConstraint terms relation rhs = .error fault := by
      rw [addConstraint_eq_map, hgiven]
      rfl
    have hafter : s.after (.addConstraint terms relation rhs) = s := by simp only [after, hadd]
    have herror : (Edit.addConstraint terms relation rhs).run s = .error fault s := by rw [hrun, hadd]
    have hmalformed := malformed_of_given hgiven
    constructor
    case inPlace => exact hrun
    case refused =>
      intro fault' t h
      cases herror.symm.trans h
      exact ⟨rfl, hafter, hmalformed⟩
    case accepted =>
      intro id t h
      cases herror.symm.trans h
    case refused_iff => exact ⟨fun _ => ⟨fault, hmalformed⟩, fun _ => ⟨fault, s, herror⟩⟩
  | ok c =>
    have hadd : s.addConstraint terms relation rhs = .ok (s.register c.terms c.relation c.rhs) := by
      rw [addConstraint_eq_map, hgiven]
      rfl
    have hafter : s.after (.addConstraint terms relation rhs) = s.register c.terms c.relation c.rhs := by
      simp only [after, hadd]
    have hok : (Edit.addConstraint terms relation rhs).run s =
        .ok s.constraints.length (s.register c.terms c.relation c.rhs) := by rw [hrun, hadd]
    constructor
    case inPlace => exact hrun
    case refused =>
      intro fault t h
      cases hok.symm.trans h
    case accepted =>
      intro id t h
      cases hok.symm.trans h
      obtain ⟨hid, -, hterms, -⟩ := given_eq_ok_iff.1 hgiven
      obtain ⟨r, hr⟩ := hs.enlarged_register c.relation c.rhs
        (forall_of_mapM (fun _ _ => readTerm_known) (mapM_eq_ok_iff.2 hterms))
      rw [← hid] at hr
      exact ⟨rfl, hafter, c, r, hgiven, hr⟩
    case refused_iff =>
      constructor
      · rintro ⟨fault, t, h⟩
        cases hok.symm.trans h
      · rintro ⟨fault, hmalformed⟩
        exact absurd hmalformed (not_malformed_of_given hgiven fault)

/-- `x + y ≤ 4` -/
def begun : List Call :=
  [.addVar "x", .addVar "y", .addConstraint [(.number 1, .id 0), (.number 1, .id 1)] "<=" (.number 4)]

/-- the denominator of the last coefficient is zero -/
def spoiledTerms : List (Numeral × VarRef) := [(.number 1, .id 0), (.text "1/0", .id 1)]

/-- a multiple of `x + y` -/
def sharedTerms : List (Numeral × VarRef) := [(.text "-2", .id 1), (.text "-2", .id 0)]

/-- the first terms of a constraint that is refused leave no trace, and a constraint on a side that is there brings no
other but tightens its interval -/
theorem begun_is_atomic : Reachable {} ((new {}).runCalls begun) ∧
    (Edit.addConstraint spoiledTerms ">=" (.number 2)).run ((new {}).runCalls begun) =
      .error .divisionByZero ((new {}).runCalls begun) ∧
    ∃ t c r, (Edit.addConstraint sharedTerms "<=" (.text "-.2e1")).run ((new {}).runCalls begun) = .ok 1 t ∧
      Enlarged ((new {}).runCalls begun) t c r ∧ t.store = ((new {}).runCalls begun).store ∧
      t.intervals = [Interval.whole, Interval.whole, ⟨some ⟨1, false, 1⟩, some ⟨4, false, 0⟩⟩] := by
  have hreachable := reachable_runCalls {} begun
  refine ⟨hreachable, ?_, ?_⟩
  · have hatomic := addConstraint_atomic hreachable spoiledTerms ">=" (.number 2)
    have hfault : (((new {}).runCalls begun).addConstraint spoiledTerms ">=" (.number 2)).map (fun _ => ()) =
        .error .divisionByZero := by decide +kernel
    rw [hatomic.inPlace]
    cases hadd : ((new {}).runCalls begun).addConstraint spoiledTerms ">=" (.number 2) with
    | error fault =>
      rw [hadd] at hfault
      cases hfault
      rfl
    | ok t =>
      rw [hadd] at hfault
      cases hfault
  · have hatomic := addConstraint_atomic hreachable sharedTerms "<=" (.text "-.2e1")
    have hparts : (((new {}).runCalls begun).addConstraint sharedTerms "<=" (.text "-.2e1")).map
        (fun t => (t.store, t.intervals)) = .ok (((new {}).runCalls begun).store,
          [Interval.whole, Interval.whole, ⟨some ⟨1, false, 1⟩, some ⟨4, false, 0⟩⟩]) := by decide +kernel
    have hcount : ((new {}).runCalls begun).constraints.length = 1 := by decide +kernel
    obtain ⟨t, hadd, hshape⟩ := map_eq_ok_iff.1 hparts
    obtain ⟨hstore, hintervals⟩ := Prod.mk.inj hshape
    have hrun : (Edit.addConstraint sharedTerms "<=" (.text "-.2e1")).run ((new {}).runCalls begun) = .ok 1 t := by
      rw [hatomic.inPlace, hadd, hcount]
    obtain ⟨-, -, c, r, -, henlarged⟩ := hatomic.accepted _ _ hrun
    exact ⟨t, c, r, hrun, henlarged, hstore, hintervals⟩

end Solver

end Halfspace
