/-
The store of left sides, and the search for a side.

A side is a normal form of some form that does not vanish (`IsSide`): sorted, and with leading coefficient one, so that
a side with a single term is a variable. In a store without repeats the index found for a form is the one place where
its normal form stands (`find?_eq_some_iff`), and placing a form appends its normal form unless it is there
(`place_spec`).
-/
import Halfspace.FormStore
import Halfspace.Proofs.NormalForm

namespace Halfspace

theorem findIdx?_eq_some_iff_of_nodup {α : Type} [DecidableEq α] {xs : List α} (hd : xs.Nodup) {a : α} {i : Nat} :
    xs.findIdx? (· = a) = some i ↔ xs[i]? = some a := by
  rw [List.findIdx?_eq_some_iff_getElem, List.getElem?_eq_some_iff]
  constructor
  · rintro ⟨hi, ha, -⟩
    exact ⟨hi, by simpa using ha⟩
  · rintro ⟨hi, ha⟩
    refine ⟨hi, by simpa using ha, fun j hji => ?_⟩
    have hne : xs[j] ≠ xs[i] := fun h => hji.ne ((List.Nodup.getElem_inj_iff hd).1 h)
    simpa [ha] using hne

namespace LinearForm

/-! ## Sides -/

theorem sorted_normalize (form : LinearForm) : Sorted form.normalize.form := by
  simp only [normalize]
  split
  · exact List.Pairwise.nil
  · rename_i t rest h
    have hs := sorted_collect form
    rw [h] at hs
    exact List.pairwise_map.2 hs

theorem coef_of_normalize {t : Term} {rest form : LinearForm} (h : form.normalize.form = t :: rest) : t.coef = 1 := by
  simp only [normalize] at h
  split at h
  · cases h
  · rename_i u us hc
    have h0 : u.coef ≠ 0 := coef_ne_zero_of_mem_collect (hc ▸ List.mem_cons_self)
    rw [List.map_cons, List.cons.injEq] at h
    rw [← h.1]
    exact div_self h0

theorem normalize_unit (x : Int) : normalize [⟨1, x⟩] = ⟨[⟨1, x⟩], 1⟩ := by
  simp [normalize, collect, sums, addTerm]

theorem mem_of_soleVar? {form : LinearForm} {x : Int} (h : form.soleVar? = some x) : ∃ t ∈ form, t.var = x := by
  unfold soleVar? at h
  split at h
  · rename_i t
    exact ⟨t, List.mem_singleton_self t, Option.some.inj h⟩
  · cases h

structure IsSide (side : LinearForm) : Prop where
  nonempty : side ≠ []
  normal : ∃ form : LinearForm, side = form.normalize.form

theorem isSide_normalize {form : LinearForm} (h : form.normalize.form ≠ []) : IsSide form.normalize.form :=
  ⟨h, form, rfl⟩

theorem isSide_unit (x : Int) : IsSide [⟨1, x⟩] := ⟨by simp, [⟨1, x⟩], by rw [normalize_unit]⟩

theorem IsSide.sorted {side : LinearForm} (h : IsSide side) : Sorted side := by
  obtain ⟨form, rfl⟩ := h.normal
  exact sorted_normalize form

theorem IsSide.eq_unit {side : LinearForm} (h : IsSide side) (ht : side.isTrivial = true) :
    ∃ x, side = [⟨1, x⟩] := by
  have hlen : side.length = 1 := by simpa [isTrivial] using ht
  obtain ⟨⟨c, x⟩, rfl⟩ := List.length_eq_one_iff.1 hlen
  obtain ⟨form, hform⟩ := h.normal
  have hc : c = 1 := coef_of_normalize hform.symm
  exact ⟨x, by rw [hc]⟩

theorem IsSide.exists_eval {side : LinearForm} (h : IsSide side) (q : Rat) : ∃ v, side.eval v = q := by
  obtain ⟨form, hform⟩ := h.normal
  have hnonzero : ∃ v, side.eval v ≠ 0 := by
    by_contra hzero
    push Not at hzero
    have hvanishes : ∀ v, form.eval v = 0 := by
      intro v
      rw [eval_normalize, ← hform, hzero v, mul_zero]
    apply h.nonempty
    rw [hform, normalize_form_eq_nil_iff]
    exact (collect_eq_nil_iff form).2 hvanishes
  obtain ⟨v, hv⟩ := hnonzero
  exact ⟨fun x => q / side.eval v * v x, by rw [eval_mul, div_mul_cancel₀ q hv]⟩

/-- a side is the normal form of its multiples, and the factor is their scale -/
theorem IsSide.normalize_eq {side : LinearForm} (h : IsSide side) {k : Rat} (hk : k ≠ 0) {form : LinearForm}
    (hmultiple : ∀ v, form.eval v = k * side.eval v) : form.normalize = ⟨side, k⟩ := by
  obtain ⟨base, hbase⟩ := h.normal
  have hform : form.normalize.form = side := by
    rw [hbase]
    refine form_normalize_of_multiple (div_ne_zero hk (scale_normalize_ne_zero base)) fun v => ?_
    rw [hmultiple, eval_normalize v base, ← hbase, ← mul_assoc, div_mul_cancel₀ _ (scale_normalize_ne_zero base)]
  obtain ⟨v, hv⟩ := h.exists_eval 1
  have hscale : form.normalize.scale = k := by
    have hvalue := eval_normalize v form
    rwa [hmultiple, hform, hv, mul_one, mul_one, eq_comm] at hvalue
  rw [← hform, ← hscale]

end LinearForm

namespace FormStore

variable {s : FormStore} {form : LinearForm} {i : Nat}

theorem getElem?_eq_getD (hi : i < s.size) : s.sides[i]? = some (s.sides.getD i []) := by
  rw [List.getD_eq_getElem?_getD, List.getElem?_eq_getElem hi]
  rfl

theorem getD_mem (hi : i < s.size) : s.sides.getD i [] ∈ s.sides := List.mem_of_getElem? (getElem?_eq_getD hi)

/-! ## Searches -/

theorem find?_eq_some_iff (hd : s.sides.Nodup) (h : form.normalize.form ≠ []) :
    s.find? form = some i ↔ s.sides[i]? = some form.normalize.form := by
  unfold find?
  split
  · rename_i h0
    exact absurd h0 h
  · exact findIdx?_eq_some_iff_of_nodup hd

theorem find?_unit_eq_some_iff (hd : s.sides.Nodup) {x : Int} :
    s.find? [⟨1, x⟩] = some i ↔ s.sides[i]? = some [⟨1, x⟩] := by
  rw [find?_eq_some_iff hd (by rw [LinearForm.normalize_unit]; simp), LinearForm.normalize_unit]

theorem find?_eq_none (h : form.normalize.form = []) : s.find? form = none := by
  simp [find?, h]

/-! ## Placing -/

theorem place_of_vanishing (h : form.normalize.form = []) : s.place form = ⟨s, none, form.normalize.scale⟩ := by
  simp [place, find?_eq_none h, h]

/-- a store in which `side` stands at `i`, and which holds at most this side besides those of `s` -/
structure Extends (s store : FormStore) (side : LinearForm) (i : Nat) : Prop where
  stored : store.sides[i]? = some side
  appended : ∃ tail, store.sides = s.sides ++ tail
  mem : ∀ form ∈ store.sides, form ∈ s.sides ∨ form = side
  distinct : store.sides.Nodup
  size_le : store.size ≤ s.size + 1

theorem Extends.le_size {store : FormStore} {side : LinearForm} (h : s.Extends store side i) :
    s.size ≤ store.size := by
  obtain ⟨tail, htail⟩ := h.appended
  simp [size, htail]

theorem Extends.getElem? {store : FormStore} {side : LinearForm} (h : s.Extends store side i) {j : Nat}
    {form : LinearForm} (hj : s.sides[j]? = some form) : store.sides[j]? = some form := by
  obtain ⟨tail, htail⟩ := h.appended
  rw [htail, List.getElem?_append_left (List.getElem?_eq_some_iff.1 hj).1, hj]

/-- **Placing.** A form that does not vanish gets the index at which its normal form stands afterwards, and at most this
normal form is new. -/
theorem place_spec (form : LinearForm) (hd : s.sides.Nodup) (h : form.normalize.form ≠ []) :
    ∃ i store, s.place form = ⟨store, some i, form.normalize.scale⟩ ∧ s.Extends store form.normalize.form i := by
  unfold place
  cases hf : s.find? form with
  | some i =>
    exact ⟨i, s, rfl, (find?_eq_some_iff hd h).1 hf, ⟨[], by simp⟩, fun _ hx => Or.inl hx, hd, Nat.le_succ _⟩
  | none =>
    have hnew : form.normalize.form ∉ s.sides := by
      intro hmem
      obtain ⟨i, hi⟩ := List.mem_iff_getElem?.1 hmem
      rw [(find?_eq_some_iff hd h).2 hi] at hf
      cases hf
    refine ⟨s.size, ⟨s.sides ++ [form.normalize.form]⟩, by simp [h], by simp [size], ⟨_, rfl⟩, fun x hx => ?_, ?_, ?_⟩
    · simpa using hx
    · refine List.nodup_append.2 ⟨hd, List.nodup_singleton _, fun x hx y hy hxy => hnew ?_⟩
      rw [← List.mem_singleton.1 hy, ← hxy]
      exact hx
    · simp [size]

end FormStore

end Halfspace
