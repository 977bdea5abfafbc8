/-
From registered constraints to a problem.

Assembling the exact problem of a registered state does not fail. Its columns are the sides in use, bounded by the
intervals of the sides, and every side that a constraint confines is in use. The rows say of every column that it has
the value of its side, read off the columns of the variables.
- `assemble_spec`: the assembled problem and what its parts mean (`Assembled`);
- `Assembled.regular`: without a contradiction found during registration no bounds are crossed;
- `Assembled.vanishes_of_assignment`: the values of sides under an assignment satisfy the rows.
-/
import Halfspace.Proofs.Engine.Pivot
import Halfspace.Proofs.Fallible
import Halfspace.Proofs.Registry.Registered

namespace Halfspace

open Keyed LinearForm

namespace Assembly

/-! ## Sides in use -/

variable {store : FormStore} {vars : Variables} {sides : List Nat}

theorem nodup_usedSides : (usedSides store vars).Nodup := List.nodup_range.filter _

theorem mem_usedSides {i : Nat} :
    i ∈ usedSides store vars ↔ i < store.size ∧ isUsed vars (store.sides.getD i []) = true := by
  simp [usedSides]

theorem length_usedSides_le : (usedSides store vars).length ≤ store.size := by
  simpa [usedSides] using (List.range store.size).length_filter_le fun i => isUsed vars (store.sides.getD i [])

theorem columnOf?_eq_some_iff (hd : sides.Nodup) {i j : Nat} : columnOf? sides i = some j ↔ sides[j]? = some i :=
  findIdx?_eq_some_iff_of_nodup hd

def varColumn (store : FormStore) (sides : List Nat) (x : Int) : Nat :=
  ((store.find? [⟨1, x⟩]).bind (columnOf? sides)).getD 0

def assignmentOf (store : FormStore) (sides : List Nat) (x : Int → Rat) : Assignment :=
  fun y => x (varColumn store sides y)

/-! ## One row -/

/-- the row of a side whose variables have columns -/
def exactRow (store : FormStore) (sides : List Nat) (side : LinearForm) (own : Int) : Row Rat :=
  (side.foldl (fun row t => Keyed.put row (varColumn store sides t.var) t.coef) Keyed.empty).put own (-1)

theorem mem_keys_exactRow {side : LinearForm} {own k : Int} :
    k ∈ (exactRow store sides side own).keys ↔ k = own ∨ ∃ t ∈ side, k = varColumn store sides t.var := by
  unfold exactRow
  rw [mem_keys_put, Row.mem_keys_foldl_put]
  simp only [keys, Keyed.empty, List.map_nil, List.not_mem_nil, or_false, List.mem_map]
  simp only [@eq_comm _ k]

theorem total_exactRow {side : LinearForm} {own : Int} (hd : (side.map fun t => varColumn store sides t.var).Nodup)
    (hown : ∀ t ∈ side, (varColumn store sides t.var : Int) ≠ own) (x : Int → Rat) :
    Row.total (exactRow store sides side own) x = side.eval (assignmentOf store sides x) - x own := by
  have hd' : (side.map fun t => (varColumn store sides t.var : Int)).Nodup := by
    have := hd.map Int.ofNat_injective
    simpa [List.map_map, Function.comp_def] using this
  have heval : ∀ form : LinearForm,
      (form.map fun t => t.coef • x (varColumn store sides t.var)).sum = form.eval (assignmentOf store sides x) := by
    intro form
    induction form with
    | nil => rfl
    | cons t rest ih =>
      rw [List.map_cons, List.sum_cons, ih]
      rfl
  have habsent : own ∉ (side.foldl (fun row t => Keyed.put row (varColumn store sides t.var) t.coef)
      (Keyed.empty : Row Rat)).keys := by
    rw [Row.mem_keys_foldl_put]
    rintro (h | h)
    · obtain ⟨t, ht, heq⟩ := List.mem_map.1 h
      exact hown t ht heq
    · simp [keys, Keyed.empty] at h
  unfold exactRow
  rw [Row.total_put, Row.total_remove_of_absent (get?_eq_none_iff.2 habsent),
    Row.total_foldl_put hd' (by simp [keys, Keyed.empty]), heval]
  simp [Row.total, Keyed.empty]
  ring

end Assembly

namespace Solver

open Assembly

variable {K V : Type} {s : Solver} {a : Assembly Rat Delta}

/-! ## Columns of variables -/

theorem Registered.interval_getD (h : Registered s) {i : Nat} (hi : i < s.store.size) :
    s.intervals.getD i Interval.whole = Interval.ofSide s.restated i := by
  simp [h.intervals, List.getD_eq_getElem?_getD, hi]

theorem Registered.exists_varSide (h : Registered s) {x : Int} (hx : 0 ≤ x ∧ x < s.vars.count) :
    ∃ i, s.varSides[x.toNat]? = some i ∧ s.store.sides[i]? = some [⟨1, x⟩] := by
  obtain ⟨i, hi, hside⟩ := h.varSide x.toNat (by omega)
  rw [Int.toNat_of_nonneg hx.1] at hside
  exact ⟨i, hi, hside⟩

theorem Registered.column_of_active (h : Registered s) {x : Int} (hx : 0 ≤ x ∧ x < s.vars.count)
    (hactive : s.vars.isActive x = true) :
    ∃ i, s.store.sides[i]? = some [⟨1, x⟩] ∧ s.varSides[x.toNat]? = some i ∧
      (usedSides s.store s.vars)[varColumn s.store (usedSides s.store s.vars) x]? = some i ∧
      columnOfVar s.store (usedSides s.store s.vars) x = .ok (varColumn s.store (usedSides s.store s.vars) x) := by
  obtain ⟨i, hi, hside⟩ := h.exists_varSide hx
  have hfind := (FormStore.find?_unit_eq_some_iff h.distinct).2 hside
  have hlt : i < s.store.size := (List.getElem?_eq_some_iff.1 hside).1
  have hused : i ∈ usedSides s.store s.vars := by
    rw [mem_usedSides]
    refine ⟨hlt, ?_⟩
    simp [List.getD_eq_getElem?_getD, hside, isUsed, soleVar?, hactive]
  obtain ⟨j, hj⟩ := List.mem_iff_getElem?.1 hused
  have hcolumn := (columnOf?_eq_some_iff nodup_usedSides).2 hj
  have hvar : varColumn s.store (usedSides s.store s.vars) x = j := by simp [varColumn, hfind, hcolumn]
  refine ⟨i, hside, hi, hvar ▸ hj, ?_⟩
  simp [columnOfVar, hfind, hcolumn, hvar]

theorem Registered.active_of_used (h : Registered s) {i : Nat} (hi : i ∈ usedSides s.store s.vars) {t : Term}
    (ht : t ∈ s.store.sides.getD i []) :
    (0 ≤ t.var ∧ t.var < s.vars.count) ∧ s.vars.isActive t.var = true := by
  obtain ⟨hlt, hused⟩ := mem_usedSides.1 hi
  have hmem := FormStore.getD_mem hlt
  refine ⟨h.known _ hmem t ht, ?_⟩
  by_cases htrivial : (s.store.sides.getD i []).isTrivial = true
  · obtain ⟨x, hx⟩ := (h.normal _ hmem).eq_unit htrivial
    rw [hx] at ht hused
    rw [List.mem_singleton.1 ht]
    simpa [isUsed, soleVar?] using hused
  · exact h.in_use _ hmem (by simpa using htrivial) t ht

/-- a side that a constraint confines is in use -/
theorem Registered.used_of_confined (h : Registered s) {r : Restated} (hr : r ∈ s.restated) {i : Nat}
    (hi : r.side = some i) : i ∈ usedSides s.store s.vars := by
  rw [mem_usedSides]
  refine ⟨h.side_lt hr hi, ?_⟩
  have hactive := h.confined r hr i hi
  unfold isUsed
  split
  · rename_i x hx
    obtain ⟨t, ht, rfl⟩ := mem_of_soleVar? hx
    exact hactive t ht
  · rfl

/-! ## The problem -/

/-- what the parts of an assembled problem mean -/
structure Assembled (s : Solver) (a : Assembly Rat Delta) : Prop where
  sides : a.sides = usedSides s.store s.vars
  rows : a.problem.rows = (slacks s.store a.sides).map fun e => exactRow s.store a.sides e.2 e.1
  basis : a.problem.basis = (slacks s.store a.sides).map fun e => (e.1 : Int)
  width : a.problem.width = a.sides.length
  framed : a.problem.Framed Arithmetic.exact
  /-- columns are bounded by the intervals of their sides -/
  span : ∀ j i : Nat, a.sides[j]? = some i → a.problem.span j = (Interval.ofSide s.restated i).span
  /-- rows give every column the value of its side -/
  vanishes_iff : ∀ x : Int → Rat, a.problem.Vanishes x ↔
    ∀ j i : Nat, a.sides[j]? = some i → x j = (s.store.sides.getD i []).eval (Assembly.assignmentOf s.store a.sides x)

theorem mem_slacks {store : FormStore} {sides : List Nat} {e : Nat × LinearForm} : e ∈ slacks store sides ↔
    ∃ i, sides[e.1]? = some i ∧ e.2 = store.sides.getD i [] ∧ e.2.isTrivial = false := by
  obtain ⟨j, form⟩ := e
  simp only [slacks, List.mem_filter, List.mem_map, Prod.exists, Prod.mk.injEq, Bool.not_eq_true']
  constructor
  · rintro ⟨⟨i, k, hik, rfl, rfl⟩, htrivial⟩
    exact ⟨i, List.mem_zipIdx_iff_getElem?.1 hik, rfl, htrivial⟩
  · rintro ⟨i, hi, rfl, htrivial⟩
    exact ⟨⟨i, j, List.mem_zipIdx_iff_getElem?.2 hi, rfl, rfl⟩, htrivial⟩

theorem nodup_slacks {store : FormStore} {sides : List Nat} : ((slacks store sides).map (·.1)).Nodup := by
  have hcolumns : ((sides.zipIdx.map fun e => (e.2, store.sides.getD e.1 [])).map (·.1)).Nodup := by
    have hrange : (sides.zipIdx.map fun e => (e.2, store.sides.getD e.1 [])).map (·.1) =
      List.range' 0 sides.length := by
      rw [List.map_map, ← List.zipIdx_map_snd 0 sides]
      rfl
    rw [hrange]
    exact List.nodup_range'
  exact hcolumns.sublist (List.filter_sublist.map _)

/-- what is known about a column with a row of its own -/
theorem Registered.slack_spec (h : Registered s) {e : Nat × LinearForm}
    (he : e ∈ slacks s.store (usedSides s.store s.vars)) :
    e.1 < (usedSides s.store s.vars).length ∧
    (e.2.map fun t => varColumn s.store (usedSides s.store s.vars) t.var).Nodup ∧
    ∀ t ∈ e.2, columnOfVar s.store (usedSides s.store s.vars) t.var =
        .ok (varColumn s.store (usedSides s.store s.vars) t.var) ∧
      varColumn s.store (usedSides s.store s.vars) t.var < (usedSides s.store s.vars).length ∧
      ∀ e' ∈ slacks s.store (usedSides s.store s.vars), varColumn s.store (usedSides s.store s.vars) t.var ≠ e'.1 := by
  obtain ⟨i, hi, hform, -⟩ := mem_slacks.1 he
  have hused := List.mem_of_getElem? hi
  have hmem : e.2 ∈ s.store.sides := hform ▸ FormStore.getD_mem (mem_usedSides.1 hused).1
  have hcolumn : ∀ t ∈ e.2, ∃ k, s.store.sides[k]? = some [⟨1, t.var⟩] ∧
      (usedSides s.store s.vars)[varColumn s.store (usedSides s.store s.vars) t.var]? = some k ∧
      columnOfVar s.store (usedSides s.store s.vars) t.var =
        .ok (varColumn s.store (usedSides s.store s.vars) t.var) := by
    intro t ht
    obtain ⟨hin, hactive⟩ := h.active_of_used hused (hform ▸ ht)
    obtain ⟨k, hk, -, hcol, hok⟩ := h.column_of_active hin hactive
    exact ⟨k, hk, hcol, hok⟩
  refine ⟨(List.getElem?_eq_some_iff.1 hi).1, ?_, fun t ht => ?_⟩
  · -- two variables with one column would be one side
    refine List.pairwise_map.2 ((h.normal _ hmem).sorted.imp_of_mem fun {t u} ht hu hlt heq => ?_)
    obtain ⟨k, hk, hcol, -⟩ := hcolumn t ht
    obtain ⟨k', hk', hcol', -⟩ := hcolumn u hu
    rw [heq, hcol'] at hcol
    rw [← Option.some.inj hcol, hk'] at hk
    have hvar : u.var = t.var := by simpa using hk
    omega
  · obtain ⟨k, hk, hcol, hok⟩ := hcolumn t ht
    refine ⟨hok, (List.getElem?_eq_some_iff.1 hcol).1, fun e' he' heq => ?_⟩
    obtain ⟨i', hi', hform', htrivial'⟩ := mem_slacks.1 he'
    rw [← heq, hcol] at hi'
    rw [hform', ← Option.some.inj hi', List.getD_eq_getElem?_getD, hk] at htrivial'
    simp [isTrivial] at htrivial'

theorem Registered.rowOf_eq (h : Registered s) {e : Nat × LinearForm}
    (he : e ∈ slacks s.store (usedSides s.store s.vars)) :
    rowOf Arithmetic.exact s.store (usedSides s.store s.vars) e.2 e.1 =
      .ok (exactRow s.store (usedSides s.store s.vars) e.2 e.1) := by
  obtain ⟨-, -, hcolumns⟩ := h.slack_spec he
  unfold rowOf
  rw [foldlM_ok (g := fun row t => Keyed.put row (varColumn s.store (usedSides s.store s.vars) t.var) t.coef)]
  · rfl
  · intro row t ht
    rw [(hcolumns t ht).1]
    rfl

theorem spanOf_exact (i : Interval) : spanOf Arithmetic.exact i = .ok i.span := by
  obtain ⟨low, upper⟩ := i
  cases low <;> cases upper <;> rfl

/-- what a row is in any arithmetic: it holds the columns of the variables of its side, and its own column less one -/
structure IsRow (A : Arithmetic K V) (store : FormStore) (sides : List Nat) (e : Nat × LinearForm) (row : Row K) :
    Prop where
  columns : ∀ k ∈ row.keys, k = e.1 ∨ ∃ t ∈ e.2, k = varColumn store sides t.var
  own : row.get? e.1 = some (A.neg A.one)

theorem isRow_exactRow (store : FormStore) (sides : List Nat) (own : List (Nat × LinearForm)) :
    List.Forall₂ (IsRow Arithmetic.exact store sides) own (own.map fun e => exactRow store sides e.2 e.1) := by
  rw [List.forall₂_map_right_iff, List.forall₂_same]
  intro e _
  exact ⟨fun _ => mem_keys_exactRow.1, by simp [exactRow]⟩

/-- **Frames.** A problem with such rows has for each a column of its own, in whatever arithmetic. -/
theorem Registered.framed (h : Registered s) {A : Arithmetic K V} {p : Problem K V}
    (hunit : A.isNull (A.neg A.one) = false)
    (hrows : List.Forall₂ (IsRow A s.store (usedSides s.store s.vars))
      (slacks s.store (usedSides s.store s.vars)) p.rows)
    (hbasis : p.basis = (slacks s.store (usedSides s.store s.vars)).map fun e => (e.1 : Int))
    (hwidth : p.width = (usedSides s.store s.vars).length) : p.Framed A := by
  have hzip : ∀ r ∈ p.rows.zip p.basis, ∃ e ∈ slacks s.store (usedSides s.store s.vars),
      IsRow A s.store (usedSides s.store s.vars) e r.1 ∧ r.2 = e.1 := by
    intro r hr
    rw [hbasis, List.zip_map_right, List.mem_map] at hr
    obtain ⟨⟨row, e⟩, hmem, rfl⟩ := hr
    have hmem' : (e, row) ∈ (slacks s.store (usedSides s.store s.vars)).zip p.rows := by
      rw [← List.zip_swap]
      exact List.mem_map.2 ⟨_, hmem, rfl⟩
    exact ⟨e, (List.of_mem_zip hmem).2, (List.forall₂_iff_zip.1 hrows).2 hmem', rfl⟩
  constructor
  case paired => rw [hbasis, List.length_map, hrows.length_eq]
  case ranged =>
    intro row hrow j hj
    obtain ⟨e, he, hrow⟩ := exists_of_forall₂ hrows hrow
    obtain ⟨hlt, -, hcolumns⟩ := h.slack_spec he
    rw [hwidth]
    rcases hrow.columns j hj with rfl | ⟨t, ht, rfl⟩
    · omega
    · have := (hcolumns t ht).2.1
      omega
  case solvable =>
    intro r hr
    obtain ⟨e, -, hrow, hown⟩ := hzip r hr
    exact ⟨A.neg A.one, hown ▸ hrow.own, hunit⟩
  case distinct =>
    rw [hbasis]
    have hnodup : ((slacks s.store (usedSides s.store s.vars)).map (·.1)).Nodup := nodup_slacks
    simpa [List.map_map, Function.comp_def] using hnodup.map Int.ofNat_injective
  case alone =>
    intro r hr b hb hmem
    obtain ⟨e, he, hrow, hown⟩ := hzip r hr
    rw [hbasis] at hb
    obtain ⟨e', he', rfl⟩ := List.mem_map.1 hb
    rcases hrow.columns _ hmem with heq | ⟨t, ht, heq⟩
    · rw [hown, heq]
    · exact absurd (Int.ofNat_inj.1 heq).symm (((h.slack_spec he).2.2 t ht).2.2 e' he')

/-- the rows, read as equations between a column and its side -/
theorem Registered.vanishes_iff (h : Registered s) {p : Problem Rat Delta}
    (hrows : p.rows = (slacks s.store (usedSides s.store s.vars)).map fun e =>
      exactRow s.store (usedSides s.store s.vars) e.2 e.1) (x : Int → Rat) :
    p.Vanishes x ↔ ∀ j i : Nat, (usedSides s.store s.vars)[j]? = some i →
      x j = (s.store.sides.getD i []).eval (Assembly.assignmentOf s.store (usedSides s.store s.vars) x) := by
  have htotal : ∀ e ∈ slacks s.store (usedSides s.store s.vars),
      Row.total (exactRow s.store (usedSides s.store s.vars) e.2 e.1) x =
        e.2.eval (Assembly.assignmentOf s.store (usedSides s.store s.vars) x) - x e.1 := by
    intro e he
    obtain ⟨-, hnodup, hcolumns⟩ := h.slack_spec he
    exact total_exactRow hnodup (fun t ht heq => (hcolumns t ht).2.2 e he (Int.ofNat_inj.1 heq)) x
  unfold Problem.Vanishes
  rw [hrows, List.forall_mem_map]
  constructor
  · intro hx j i hi
    by_cases htrivial : (s.store.sides.getD i []).isTrivial = true
    · -- the side is a variable, and this is its column
      have hused := List.mem_of_getElem? hi
      have hlt := (mem_usedSides.1 hused).1
      obtain ⟨y, hy⟩ := (h.normal _ (FormStore.getD_mem hlt)).eq_unit htrivial
      have hside : s.store.sides[i]? = some [⟨1, y⟩] := hy ▸ FormStore.getElem?_eq_getD hlt
      have hcolumn : varColumn s.store (usedSides s.store s.vars) y = j := by
        simp [varColumn, (FormStore.find?_unit_eq_some_iff h.distinct).2 hside,
          (columnOf?_eq_some_iff nodup_usedSides).2 hi]
      rw [hy]
      simp [eval, Assembly.assignmentOf, hcolumn]
    · have he : (j, s.store.sides.getD i []) ∈ slacks s.store (usedSides s.store s.vars) :=
        mem_slacks.2 ⟨i, hi, rfl, by simpa using htrivial⟩
      have hzero := hx _ he
      rw [htotal _ he] at hzero
      exact (sub_eq_zero.1 hzero).symm
  · intro hx e he
    obtain ⟨i, hi, hform, -⟩ := mem_slacks.1 he
    rw [htotal e he, hform, hx e.1 i hi, sub_self]

theorem Registered.exists_names (h : Registered s) :
    ∃ names, (usedSides s.store s.vars).mapM (Assembly.nameOf s.vars s.store) = .ok names := by
  refine exists_mapM_ok fun i hi => ?_
  unfold Assembly.nameOf
  split
  · rename_i x hx
    obtain ⟨t, ht, rfl⟩ := mem_of_soleVar? hx
    obtain ⟨hin, -⟩ := h.active_of_used hi ht
    have hlt : t.var.toNat < s.vars.names.length := by
      have hcount : s.vars.names.length = s.vars.count := rfl
      omega
    exact ⟨s.vars.names[t.var.toNat], by
      simp [Variables.name, Variables.position?, hin, List.getElem?_eq_getElem hlt]⟩
  · exact ⟨_, rfl⟩

/-- **Assembly.** A registered state can be assembled. -/
theorem assemble_spec (h : Registered s) : ∃ a, s.assemble Arithmetic.exact = .ok a ∧ Assembled s a := by
  set sides := usedSides s.store s.vars with hsides
  set intervals := sides.map fun i => s.intervals.getD i Interval.whole with hintervals
  obtain ⟨names, hnames⟩ := h.exists_names
  have hrows := mapM_ok fun e he => h.rowOf_eq (e := e) he
  have hspans : intervals.mapM (spanOf Arithmetic.exact) = .ok (intervals.map Interval.span) :=
    mapM_ok fun i _ => spanOf_exact i
  refine ⟨{
    problem := {
      rows := (slacks s.store sides).map fun e => exactRow s.store sides e.2 e.1
      basis := (slacks s.store sides).map fun e => (e.1 : Int)
      spans := intervals.map Interval.span }
    shapes := intervals.map (·.shape)
    names := names
    sides := sides }, ?_, ?_⟩
  · unfold assemble ofSides
    simp only [← hsides, ← hintervals] at hnames hrows ⊢
    rw [hnames, hrows, hspans]
    rfl
  · have hwidth : (intervals.map Interval.span).length = sides.length := by simp [hintervals]
    refine ⟨rfl, rfl, rfl, hwidth, h.framed (by simp) (isRow_exactRow s.store sides _) rfl hwidth, fun j i hi => ?_,
      h.vanishes_iff rfl⟩
    have hlt : i < s.store.size := (mem_usedSides.1 (List.mem_of_getElem? hi)).1
    have hj : j < (intervals.map Interval.span).length := hwidth ▸ (List.getElem?_eq_some_iff.1 hi).1
    show (fetch? (intervals.map Interval.span) (j : Int)).getD Span.free = _
    have hinterval := h.interval_getD hlt
    rw [List.getD_eq_getElem?_getD] at hinterval
    simp only at hi
    rw [fetch?_natCast hj]
    simp [hintervals, hi, hinterval]

namespace Assembled

/-- **Room.** Without a contradiction found during registration, no bounds are crossed. -/
theorem regular (ha : Assembled s a) (h : Registered s) (hclash : s.clash = none) : a.problem.Regular := by
  refine ⟨ha.framed, fun sp hsp l u hl hu => ?_⟩
  obtain ⟨j, hj, rfl⟩ := List.getElem_of_mem hsp
  have hwidth : a.problem.spans.length = a.sides.length := ha.width
  have hside : a.sides[j]? = some a.sides[j] := List.getElem?_eq_getElem (hwidth ▸ hj)
  have hspan := ha.span j _ hside
  have hfetch : a.problem.span (j : Int) = a.problem.spans[j] :=
    Option.some.inj ((Problem.getElem?_spans hj).symm.trans (List.getElem?_eq_getElem hj))
  rw [← hfetch, hspan] at hl hu
  obtain ⟨low, hlow, rfl⟩ := Option.map_eq_some_iff.1 hl
  obtain ⟨upper, hupper, rfl⟩ := Option.map_eq_some_iff.1 hu
  by_contra hcross
  have hempty := (Interval.isEmpty_iff _).2 ⟨low, upper, hlow, hupper, not_le.1 hcross⟩
  rw [(h.clash_complete hclash).1] at hempty
  cases hempty

theorem exists_side (ha : Assembled s a) {j : Int} (hj : 0 ≤ j ∧ j < a.problem.width) :
    ∃ i, a.sides[j.toNat]? = some i := by
  have hlt : j.toNat < a.sides.length := by
    have := ha.width
    omega
  exact ⟨_, List.getElem?_eq_getElem hlt⟩

/-- **Assignments as columns.** The values of sides under an assignment satisfy the rows. -/
theorem vanishes_of_assignment (ha : Assembled s a) (h : Registered s) (v : Assignment) :
    a.problem.Vanishes fun j => s.store.valueOf v a.sides[j.toNat]? := by
  rw [ha.vanishes_iff]
  intro j i hi
  rw [Int.toNat_natCast, hi]
  refine eval_congr fun t ht => ?_
  have hused : i ∈ usedSides s.store s.vars := ha.sides ▸ List.mem_of_getElem? hi
  obtain ⟨hin, hactive⟩ := h.active_of_used hused ht
  obtain ⟨k, hk, -, hcol, -⟩ := h.column_of_active hin hactive
  show v t.var = s.store.valueOf v a.sides[(varColumn s.store a.sides t.var : Int).toNat]?
  rw [ha.sides, Int.toNat_natCast, hcol, FormStore.valueOf_some hk]
  simp [eval]

end Assembled

end Solver

end Halfspace
