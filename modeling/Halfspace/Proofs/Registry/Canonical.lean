/-
Sides identify forms up to a nonzero factor.

Every form has one normal form, which it shares with its nonzero multiples and with nothing else. A store keeps normal
forms, each once and in the order of first use, so that what it answers depends only on which forms were placed in it
before: placing proportional forms gives the same index, placing a new one gives the next index, and a search finds
exactly what was placed. `Use` is what a caller does with one store, `runUses` does it use after use, and `log` records
the answers.
- `isNormal_normalize`, `form_normalize_eq_iff`, `proportional_iff`: normal forms;
- `uses_after`: what one use does, in all cases;
- `Holds.after`, `holds_runUses`: the sides of a store are the normal forms of what was placed in it;
- `eraseDups_given`: indices are dense in the order in which they are first given;
- `sides_identify`: all of it, for every form and every sequence of uses.
-/
import Halfspace.Proofs.Registry.Sides

namespace Halfspace

namespace LinearForm

variable {a b form : LinearForm}

/-! ## Normal forms -/

/-- the form `n.form` stands for all multiples of `form`, which is `n.scale` times it -/
structure IsNormal (form : LinearForm) (n : Normal) : Prop where
  scale_ne_zero : n.scale ≠ 0
  sorted : Sorted n.form
  leading : ∀ t ∈ n.form.head?, t.coef = 1
  coef_ne_zero : ∀ t ∈ n.form, t.coef ≠ 0
  eval_eq : ∀ v, form.eval v = n.scale * n.form.eval v
  nil_iff : n.form = [] ↔ ∀ v, form.eval v = 0
  /-- it is its own normal form -/
  again : n.form ≠ [] → n.form.normalize = ⟨n.form, 1⟩

theorem normalize_form_eq_nil_iff_eval (form : LinearForm) : form.normalize.form = [] ↔ ∀ v, form.eval v = 0 :=
  (normalize_form_eq_nil_iff form).trans (collect_eq_nil_iff form)

theorem coef_ne_zero_of_mem_normalize {t : Term} (h : t ∈ form.normalize.form) : t.coef ≠ 0 := by
  simp only [normalize] at h
  split at h
  · cases h
  · rename_i u rest hc
    obtain ⟨w, hw, rfl⟩ := List.mem_map.1 h
    have hu : u.coef ≠ 0 := coef_ne_zero_of_mem_collect (hc ▸ List.mem_cons_self)
    have hw : w.coef ≠ 0 := coef_ne_zero_of_mem_collect (hc ▸ hw)
    exact div_ne_zero hw hu

theorem isNormal_normalize (form : LinearForm) : IsNormal form form.normalize where
  scale_ne_zero := scale_normalize_ne_zero form
  sorted := sorted_normalize form
  leading t ht := by
    obtain ⟨rest, hform⟩ := List.head?_eq_some_iff.1 ht
    exact coef_of_normalize hform
  coef_ne_zero _ := coef_ne_zero_of_mem_normalize
  eval_eq v := eval_normalize v form
  nil_iff := normalize_form_eq_nil_iff_eval form
  again h := (isSide_normalize h).normalize_eq one_ne_zero fun v => (one_mul _).symm

/-! ## Proportional forms -/

/-- `a` is a multiple of `b`, and not zero -/
def IsMultiple (a b : LinearForm) : Prop := (∃ v, a.eval v ≠ 0) ∧ ∃ k, ∀ v, a.eval v = k * b.eval v

/-- each is a nonzero multiple of the other -/
def Proportional (a b : LinearForm) : Prop := IsMultiple a b ∧ IsMultiple b a

/-- **Same normal form.** Forms share it exactly when one is the other times a factor that is not zero. -/
theorem form_normalize_eq_iff :
    a.normalize.form = b.normalize.form ↔ ∃ k, k ≠ 0 ∧ ∀ v, a.eval v = k * b.eval v := by
  constructor
  · intro h
    have ha := scale_normalize_ne_zero a
    have hb := scale_normalize_ne_zero b
    refine ⟨a.normalize.scale / b.normalize.scale, div_ne_zero ha hb, ?_⟩
    intro v
    rw [eval_normalize v a, eval_normalize v b, h, ← mul_assoc, div_mul_cancel₀ _ hb]
  · rintro ⟨k, hk, heval⟩
    exact form_normalize_of_multiple hk heval

theorem IsMultiple.form_normalize_eq (h : IsMultiple a b) : a.normalize.form = b.normalize.form := by
  obtain ⟨⟨v, hv⟩, k, hk⟩ := h
  have h0 : k ≠ 0 := by
    rintro rfl
    exact hv (by rw [hk, zero_mul])
  exact form_normalize_of_multiple h0 hk

theorem isMultiple_of_form_normalize_eq (h : a.normalize.form = b.normalize.form) (hne : a.normalize.form ≠ []) :
    IsMultiple a b := by
  obtain ⟨k, -, hk⟩ := form_normalize_eq_iff.1 h
  refine ⟨?_, k, hk⟩
  by_contra hzero
  push Not at hzero
  exact hne ((normalize_form_eq_nil_iff_eval a).2 hzero)

/-- **Proportional forms** are those that share a normal form with terms in it. -/
theorem proportional_iff :
    Proportional a b ↔ a.normalize.form = b.normalize.form ∧ a.normalize.form ≠ [] := by
  constructor
  · rintro ⟨hab, -⟩
    refine ⟨hab.form_normalize_eq, ?_⟩
    intro hnil
    obtain ⟨v, hv⟩ := hab.1
    exact hv ((normalize_form_eq_nil_iff_eval a).1 hnil v)
  · rintro ⟨h, hne⟩
    exact ⟨isMultiple_of_form_normalize_eq h hne, isMultiple_of_form_normalize_eq h.symm (h ▸ hne)⟩

end LinearForm

namespace FormStore

open LinearForm

/-! ## Uses of a store -/

/-- what a caller does with a store -/
inductive Use where
  | place (form : LinearForm)
  | placeVar (x : Int)
  | find (form : LinearForm)

namespace Use

def form : Use → LinearForm
  | place form => form
  | placeVar x => [⟨1, x⟩]
  | find form => form

def places : Use → Bool
  | place _ => true
  | placeVar _ => true
  | find _ => false

end Use

def after (s : FormStore) : Use → FormStore
  | .place form => (s.place form).store
  | .placeVar x => (s.placeVar x).store
  | .find _ => s

def answer (s : FormStore) : Use → Option Nat
  | .place form => (s.place form).side
  | .placeVar x => (s.placeVar x).side
  | .find form => s.find? form

def runUses (s : FormStore) (uses : List Use) : FormStore := uses.foldl after s

/-- the uses of a store with their answers -/
def log (s : FormStore) : List Use → List (Use × Option Nat)
  | [] => []
  | u :: rest => (u, s.answer u) :: (s.after u).log rest

variable {s : FormStore} {form : LinearForm} {i : Nat} {u : Use} {uses : List Use}

theorem runUses_concat (s : FormStore) (uses : List Use) (u : Use) :
    s.runUses (uses ++ [u]) = (s.runUses uses).after u := List.foldl_concat _ _ _ _

theorem log_concat (s : FormStore) (uses : List Use) (u : Use) :
    s.log (uses ++ [u]) = s.log uses ++ [(u, (s.runUses uses).answer u)] := by
  induction uses generalizing s with
  | nil => rfl
  | cons w rest ih => exact congrArg ((w, s.answer w) :: ·) (ih (s.after w))

theorem exists_mem_log (s : FormStore) (h : u ∈ uses) : ∃ answer, (u, answer) ∈ s.log uses := by
  induction uses generalizing s with
  | nil => cases h
  | cons w rest ih =>
    rcases List.mem_cons.1 h with rfl | h
    · exact ⟨_, List.mem_cons_self⟩
    · obtain ⟨answer, hmem⟩ := ih (s.after w) h
      exact ⟨answer, List.mem_cons_of_mem _ hmem⟩

/-! ## One use -/

/-- what a use may do to a store, and the index that it is given -/
inductive Uses (s : FormStore) (u : Use) : FormStore → Option Nat → Prop where
  | looks (found : u.places = false) : Uses s u s (s.find? u.form)
  | vanishing (placed : u.places = true) (cancels : u.form.normalize.form = []) : Uses s u s none
  | known {i : Nat} (placed : u.places = true) (survives : u.form.normalize.form ≠ [])
      (stored : s.sides[i]? = some u.form.normalize.form) : Uses s u s (some i)
  | fresh (placed : u.places = true) (survives : u.form.normalize.form ≠ [])
      (absent : u.form.normalize.form ∉ s.sides) : Uses s u ⟨s.sides ++ [u.form.normalize.form]⟩ (some s.size)

theorem uses_place (hd : s.sides.Nodup) (hu : u.places = true) :
    Uses s u (s.place u.form).store (s.place u.form).side := by
  by_cases h : u.form.normalize.form = []
  · rw [place_of_vanishing h]
    exact .vanishing hu h
  · cases hfind : s.find? u.form with
    | some i =>
      have hplace : s.place u.form = ⟨s, some i, u.form.normalize.scale⟩ := by simp [place, hfind]
      rw [hplace]
      exact .known hu h ((find?_eq_some_iff hd h).1 hfind)
    | none =>
      have hplace : s.place u.form = ⟨⟨s.sides ++ [u.form.normalize.form]⟩, some s.size, u.form.normalize.scale⟩ := by
        simp [place, hfind, h]
      rw [hplace]
      refine .fresh hu h ?_
      intro hmem
      obtain ⟨i, hi⟩ := List.mem_iff_getElem?.1 hmem
      cases hfind.symm.trans ((find?_eq_some_iff hd h).2 hi)

/-- **One use.** -/
theorem uses_after (hd : s.sides.Nodup) (u : Use) : Uses s u (s.after u) (s.answer u) := by
  cases u with
  | place form => exact uses_place (u := .place form) hd rfl
  | placeVar x => exact uses_place (u := .placeVar x) hd rfl
  | find form => exact .looks rfl

namespace Uses

variable {s' : FormStore} {o : Option Nat}

theorem sides_prefix (h : Uses s u s' o) : s.sides <+: s'.sides := by
  cases h with
  | fresh placed survives absent => exact List.prefix_append _ _
  | _ => exact List.prefix_refl _

theorem nodup_sides (hd : s.sides.Nodup) (h : Uses s u s' o) : s'.sides.Nodup := by
  cases h with
  | fresh placed survives absent =>
    rw [← List.concat_eq_append]
    exact hd.concat absent
  | _ => exact hd

/-- only what is placed comes in -/
theorem mem_sides_iff (h : Uses s u s' o) (key : LinearForm) : key ∈ s'.sides ↔
    key ∈ s.sides ∨ (u.places = true ∧ u.form.normalize.form = key ∧ key ≠ []) := by
  cases h with
  | looks found => simp [found]
  | vanishing placed cancels =>
    simp only [cancels, @eq_comm _ [] key]
    tauto
  | known placed survives stored =>
    have hmem : u.form.normalize.form ∈ s.sides := List.mem_of_getElem? stored
    refine ⟨Or.inl, ?_⟩
    rintro (hold | ⟨-, rfl, -⟩)
    · exact hold
    · exact hmem
  | fresh placed survives absent =>
    rw [List.mem_append, List.mem_singleton, eq_comm]
    refine or_congr_right ⟨?_, fun hnew => hnew.2.1⟩
    rintro rfl
    exact ⟨placed, rfl, survives⟩

theorem stored (hd : s.sides.Nodup) (h : Uses s u s' o) (ho : o = some i) :
    s'.sides[i]? = some u.form.normalize.form := by
  cases h with
  | looks found =>
    have hne : u.form.normalize.form ≠ [] := by
      intro hnil
      cases (find?_eq_none hnil).symm.trans ho
    exact (find?_eq_some_iff hd hne).1 ho
  | vanishing placed cancels => cases ho
  | known placed survives stored => exact Option.some.inj ho ▸ stored
  | fresh placed survives absent =>
    rw [← Option.some.inj ho]
    simp [size]

theorem eq_none_iff (h : Uses s u s' o) (hu : u.places = true) : o = none ↔ u.form.normalize.form = [] := by
  cases h with
  | looks found => cases hu.symm.trans found
  | vanishing placed cancels => simp [cancels]
  | known placed survives stored => simp [survives]
  | fresh placed survives absent => simp [survives]

end Uses

/-! ## Any uses -/

/-- the sides of a store are the normal forms of what was placed in it, each once -/
structure Holds (uses : List Use) (s : FormStore) : Prop where
  distinct : s.sides.Nodup
  mem_iff : ∀ key, key ∈ s.sides ↔ ∃ u ∈ uses, u.places = true ∧ u.form.normalize.form = key ∧ key ≠ []

theorem Holds.after (h : Holds uses s) (u : Use) : Holds (uses ++ [u]) (s.after u) where
  distinct := (uses_after h.distinct u).nodup_sides h.distinct
  mem_iff key := by
    rw [(uses_after h.distinct u).mem_sides_iff, h.mem_iff]
    simp only [List.mem_append, List.mem_singleton, or_and_right, exists_or, exists_eq_left]

theorem holds_runUses (uses : List Use) : Holds uses (runUses {} uses) := by
  induction uses using List.reverseRecOn with
  | nil => exact ⟨List.nodup_nil, by simp [runUses]⟩
  | append_singleton uses u ih =>
    rw [runUses_concat]
    exact ih.after u

theorem prefix_runUses (hd : s.sides.Nodup) (uses : List Use) : s.sides <+: (s.runUses uses).sides := by
  induction uses generalizing s with
  | nil => exact List.prefix_refl _
  | cons u rest ih =>
    have hstep : Uses s u (s.after u) (s.answer u) := uses_after hd u
    exact hstep.sides_prefix.trans (ih (hstep.nodup_sides hd))

theorem runUses_filter_places (s : FormStore) (uses : List Use) :
    s.runUses (uses.filter (·.places)) = s.runUses uses := by
  induction uses generalizing s with
  | nil => rfl
  | cons u rest ih =>
    cases u with
    | find form => exact ih s
    | place form => exact ih _
    | placeVar x => exact ih _

theorem stored_of_mem_log {e : Use × Option Nat} (he : e ∈ log {} uses) (hi : e.2 = some i) :
    (runUses {} uses).sides[i]? = some e.1.form.normalize.form := by
  induction uses using List.reverseRecOn with
  | nil => cases he
  | append_singleton uses u ih =>
    have hd : (runUses {} uses).sides.Nodup := (holds_runUses uses).distinct
    have hstep : Uses (runUses {} uses) u _ _ := uses_after hd u
    rw [log_concat, List.mem_append, List.mem_singleton] at he
    rw [runUses_concat]
    rcases he with hold | rfl
    · obtain ⟨tail, htail⟩ := hstep.sides_prefix
      have hstored := ih hold
      rw [← htail, List.getElem?_append_left (List.getElem?_eq_some_iff.1 hstored).1, hstored]
    · exact hstep.stored hd hi

theorem eq_none_iff_of_mem_log {e : Use × Option Nat} (he : e ∈ log {} uses) (hplaces : e.1.places = true) :
    e.2 = none ↔ e.1.form.normalize.form = [] := by
  induction uses using List.reverseRecOn with
  | nil => cases he
  | append_singleton uses u ih =>
    rw [log_concat, List.mem_append, List.mem_singleton] at he
    rcases he with hold | rfl
    · exact ih hold
    · exact (uses_after (holds_runUses uses).distinct u).eq_none_iff hplaces

/-- every side was given to a use that placed a form with it -/
theorem exists_mem_log_of_stored {key : LinearForm} (h : (runUses {} uses).sides[i]? = some key) :
    ∃ e ∈ log {} uses, e.1.places = true ∧ e.2 = some i ∧ e.1.form.normalize.form = key := by
  have hholds := holds_runUses uses
  obtain ⟨u, hu, hplaces, hkey, hne⟩ := (hholds.mem_iff key).1 (List.mem_of_getElem? h)
  obtain ⟨answer, hmem⟩ := exists_mem_log {} hu
  have hgiven : answer ≠ none := by
    intro hnone
    exact hne (hkey ▸ (eq_none_iff_of_mem_log hmem hplaces).1 hnone)
  obtain ⟨j, rfl⟩ := Option.ne_none_iff_exists'.1 hgiven
  have hj : (runUses {} uses).sides[j]? = some key := hkey ▸ stored_of_mem_log hmem rfl
  have hij : i = j := by
    apply (List.getElem?_inj (List.getElem?_eq_some_iff.1 h).1 hholds.distinct).1
    rw [h, hj]
  exact ⟨_, hmem, hplaces, hij ▸ rfl, hkey⟩

/-! ## Indices -/

/-- the indices given to what was placed, use after use -/
def given (uses : List Use) : List Nat := ((log {} uses).filter (·.1.places)).filterMap (·.2)

theorem given_concat (uses : List Use) (u : Use) : given (uses ++ [u]) =
    given uses ++ if u.places then ((runUses {} uses).answer u).toList else [] := by
  unfold given
  rw [log_concat, List.filter_append, List.filterMap_append]
  congr 1
  cases hu : u.places with
  | false => simp [hu]
  | true => cases (runUses {} uses).answer u <;> simp [hu]

theorem eraseDups_concat (is : List Nat) (i : Nat) :
    (is ++ [i]).eraseDups = if i ∈ is then is.eraseDups else is.eraseDups ++ [i] := by
  rw [List.eraseDups_append]
  split_ifs with h
  · simp [List.removeAll, h]
  · simp [List.removeAll, h, List.eraseDups_cons]

/-- **Dense indices.** The indices given, each where it is given first, are all numbers below the number of sides, in
order. -/
theorem eraseDups_given (uses : List Use) : (given uses).eraseDups = List.range (runUses {} uses).size := by
  induction uses using List.reverseRecOn with
  | nil => rfl
  | append_singleton uses u ih =>
    have hmem : ∀ i, i ∈ given uses ↔ i < (runUses {} uses).size := by
      intro i
      rw [← List.mem_eraseDups, ih, List.mem_range]
    have hstep := uses_after (holds_runUses uses).distinct u
    rw [given_concat, runUses_concat]
    generalize (runUses {} uses).after u = s', (runUses {} uses).answer u = o at hstep
    cases hstep with
    | looks found => rw [found, if_neg Bool.false_ne_true, List.append_nil, ih]
    | vanishing placed cancels => rw [placed, if_pos rfl, Option.toList_none, List.append_nil, ih]
    | known placed survives stored =>
      have hold := (hmem _).2 (List.getElem?_eq_some_iff.1 stored).1
      rw [placed, if_pos rfl, Option.toList_some, eraseDups_concat, if_pos hold, ih]
    | fresh placed survives absent =>
      have hnew : (runUses {} uses).size ∉ given uses := fun h => lt_irrefl _ ((hmem _).1 h)
      rw [placed, if_pos rfl, Option.toList_some, eraseDups_concat, if_neg hnew, ih, ← List.range_succ]
      simp [size]

/-! ## What a store tells apart -/

/-- what the answers and the sides of a store say about the forms placed in it -/
structure Identifies (uses : List Use) : Prop where
  /-- every form gets a side but the zero one -/
  unplaced_iff : ∀ e ∈ log {} uses, e.1.places = true → (e.2 = none ↔ ∀ v, e.1.form.eval v = 0)
  stored : ∀ e ∈ log {} uses, ∀ i, e.2 = some i → (runUses {} uses).sides[i]? = some e.1.form.normalize.form
  same_index_iff : ∀ e ∈ log {} uses, ∀ e' ∈ log {} uses, e.1.places = true → e'.1.places = true →
    ∀ i i', e.2 = some i → e'.2 = some i' → (i = i' ↔ Proportional e.1.form e'.1.form)
  /-- indices are dense in the order in which they are first given -/
  dense : (given uses).eraseDups = List.range (runUses {} uses).size
  /-- no side is changed, removed or moved later -/
  kept : ∀ earlier later, uses = earlier ++ later → (runUses {} earlier).sides <+: (runUses {} uses).sides
  found_iff : ∀ form i, (runUses {} uses).find? form = some i ↔
    ∃ e ∈ log {} uses, e.1.places = true ∧ e.2 = some i ∧ Proportional form e.1.form
  /-- looking for a form stores nothing -/
  placed_only : runUses {} uses = runUses {} (uses.filter (·.places))

theorem identifies (uses : List Use) : Identifies uses where
  unplaced_iff e he hplaces := (eq_none_iff_of_mem_log he hplaces).trans (normalize_form_eq_nil_iff_eval _)
  stored e he i hi := stored_of_mem_log he hi
  same_index_iff e he e' he' hplaces hplaces' i i' hi hi' := by
    have hstored := stored_of_mem_log he hi
    have hstored' := stored_of_mem_log he' hi'
    have hne : e.1.form.normalize.form ≠ [] := by
      intro hnil
      cases ((eq_none_iff_of_mem_log he hplaces).2 hnil).symm.trans hi
    rw [proportional_iff, and_iff_left hne]
    constructor
    · rintro rfl
      exact Option.some.inj (hstored.symm.trans hstored')
    · intro hkey
      apply (List.getElem?_inj (List.getElem?_eq_some_iff.1 hstored).1 (holds_runUses uses).distinct).1
      rw [hstored, hstored', hkey]
  dense := eraseDups_given uses
  kept earlier later huses := by
    have hrun : runUses {} uses = (runUses {} earlier).runUses later := by rw [huses, runUses, List.foldl_append]; rfl
    rw [hrun]
    exact prefix_runUses (holds_runUses earlier).distinct later
  found_iff form i := by
    have hd := (holds_runUses uses).distinct
    constructor
    · intro hfind
      have hne : form.normalize.form ≠ [] := by
        intro hnil
        cases (find?_eq_none hnil).symm.trans hfind
      obtain ⟨e, he, hplaces, hi, hkey⟩ := exists_mem_log_of_stored ((find?_eq_some_iff hd hne).1 hfind)
      exact ⟨e, he, hplaces, hi, proportional_iff.2 ⟨hkey.symm, hne⟩⟩
    · rintro ⟨e, he, -, hi, hproportional⟩
      obtain ⟨hkey, hne⟩ := proportional_iff.1 hproportional
      rw [find?_eq_some_iff hd hne, hkey]
      exact stored_of_mem_log he hi
  placed_only := (runUses_filter_places {} uses).symm

/-- **Sides identify forms** up to a factor that is not zero. Every form has a normal form, which it shares with exactly
the forms that are such a factor times it; and whatever a store is used for, the indices that it gives out tell
proportional forms from others, are dense in the order of first use and stay what they are, while a search finds what
was placed. -/
theorem sides_identify : (∀ form : LinearForm, IsNormal form form.normalize) ∧
    (∀ a b : LinearForm, a.normalize.form = b.normalize.form ↔ ∃ k, k ≠ 0 ∧ ∀ v, a.eval v = k * b.eval v) ∧
    (∀ a b : LinearForm, a.normalize.form = b.normalize.form ∧ a.normalize.form ≠ [] ↔ Proportional a b) ∧
    ∀ uses, Identifies uses :=
  ⟨isNormal_normalize, fun _ _ => form_normalize_eq_iff, fun _ _ => proportional_iff.symm, identifies⟩

/-- `2x + 4y`, then `-x - 2y` in another order, `y`, `x - x` and a search for `3y` -/
example : (log {} [.place [⟨2, 0⟩, ⟨4, 1⟩], .place [⟨-2, 1⟩, ⟨-1, 0⟩], .placeVar 1, .place [⟨1, 0⟩, ⟨-1, 0⟩],
    .find [⟨3, 1⟩]]).map (·.2) = [some 0, some 0, some 1, none, some 1] := by
  decide +kernel

end FormStore

end Halfspace
