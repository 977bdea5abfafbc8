/-
What collecting and normalizing a linear form leave behind.

A collected form is sorted by variable and has no zero coefficient, so each of its coefficients can be read off by
evaluating at the assignment that is one at a single variable (`Assignment.unit`).
- `mem_collect_iff`: a term is collected exactly when its coefficient is the sum for its variable and not zero;
- `collect_eq_nil_iff`: nothing is left exactly when the form is zero under every assignment;
- `eval_normalize`: a form is its scale times its normal form, and the scale is never zero;
- `exists_var_normalize_iff`: the variables of a normal form are those whose coefficients do not cancel;
- `form_normalize_of_multiple`: forms that are multiples of one another have the same normal form.
-/
import Halfspace.LinearForm
import Mathlib.Tactic

namespace Halfspace

/-- one at a single variable, zero elsewhere -/
def Assignment.unit (x : Int) : Assignment := fun y => if y = x then 1 else 0

namespace LinearForm

/-! ## Order of variables -/

def Sorted (form : LinearForm) : Prop := form.Pairwise fun t u => t.var < u.var

theorem var_of_mem_addTerm {t u : Term} {form : LinearForm} (h : u ∈ addTerm t form) :
    u.var = t.var ∨ ∃ w ∈ form, u.var = w.var := by
  induction form with
  | nil =>
    simp only [addTerm, List.mem_singleton] at h
    exact Or.inl (by rw [h])
  | cons w rest ih =>
    simp only [addTerm] at h
    split_ifs at h with h1 h2
    · rcases List.mem_cons.1 h with rfl | h
      · exact Or.inl rfl
      · exact Or.inr ⟨u, h, rfl⟩
    · rcases List.mem_cons.1 h with rfl | h
      · exact Or.inl h2.symm
      · exact Or.inr ⟨u, List.mem_cons_of_mem _ h, rfl⟩
    · rcases List.mem_cons.1 h with rfl | h
      · exact Or.inr ⟨u, List.mem_cons_self, rfl⟩
      · rcases ih h with h | ⟨z, hz, h⟩
        · exact Or.inl h
        · exact Or.inr ⟨z, List.mem_cons_of_mem _ hz, h⟩

theorem sorted_addTerm {t : Term} {form : LinearForm} (h : Sorted form) : Sorted (addTerm t form) := by
  induction form with
  | nil => exact List.pairwise_singleton _ _
  | cons w rest ih =>
    obtain ⟨hw, hrest⟩ := List.pairwise_cons.1 h
    simp only [addTerm]
    split_ifs with h1 h2
    · refine List.pairwise_cons.2 ⟨fun u hu => ?_, h⟩
      rcases List.mem_cons.1 hu with rfl | hu
      · exact h1
      · exact h1.trans (hw u hu)
    · exact List.pairwise_cons.2 ⟨hw, hrest⟩
    · refine List.pairwise_cons.2 ⟨fun u hu => ?_, ih hrest⟩
      rcases var_of_mem_addTerm hu with h | ⟨z, hz, h⟩
      · omega
      · have := hw z hz
        omega

theorem sorted_sums (form : LinearForm) : Sorted (sums form) := by
  induction form with
  | nil => exact List.Pairwise.nil
  | cons t rest ih => exact sorted_addTerm ih

theorem sorted_collect (form : LinearForm) : Sorted (collect form) := (sorted_sums form).filter _

theorem var_of_mem_sums {u : Term} {form : LinearForm} (h : u ∈ sums form) : ∃ t ∈ form, u.var = t.var := by
  induction form generalizing u with
  | nil => simp [sums] at h
  | cons t rest ih =>
    rcases var_of_mem_addTerm h with h | ⟨w, hw, h⟩
    · exact ⟨t, List.mem_cons_self, h⟩
    · obtain ⟨z, hz, hzw⟩ := ih hw
      exact ⟨z, List.mem_cons_of_mem _ hz, h.trans hzw⟩

theorem var_of_mem_collect {u : Term} {form : LinearForm} (h : u ∈ collect form) : ∃ t ∈ form, u.var = t.var :=
  var_of_mem_sums (List.mem_of_mem_filter h)

theorem coef_ne_zero_of_mem_collect {u : Term} {form : LinearForm} (h : u ∈ collect form) : u.coef ≠ 0 := by
  simpa using (List.mem_filter.1 h).2

/-! ## Coefficients -/

theorem eval_congr {v w : Assignment} {form : LinearForm} (h : ∀ t ∈ form, v t.var = w t.var) :
    eval v form = eval w form := by
  induction form with
  | nil => rfl
  | cons t rest ih =>
    simp only [eval]
    rw [h t List.mem_cons_self, ih fun u hu => h u (List.mem_cons_of_mem t hu)]

theorem eval_eq_zero {v : Assignment} {form : LinearForm} (h : ∀ t ∈ form, t.coef * v t.var = 0) :
    eval v form = 0 := by
  induction form with
  | nil => rfl
  | cons t rest ih =>
    simp only [eval]
    rw [h t List.mem_cons_self, ih fun u hu => h u (List.mem_cons_of_mem t hu), add_zero]

theorem eval_mul (k : Rat) (v : Assignment) (form : LinearForm) : eval (fun x => k * v x) form = k * eval v form := by
  induction form with
  | nil => simp [eval]
  | cons t rest ih =>
    simp only [eval, ih]
    ring

theorem eval_unit_of_absent {x : Int} {form : LinearForm} (h : ∀ t ∈ form, t.var ≠ x) :
    eval (Assignment.unit x) form = 0 :=
  eval_eq_zero fun t ht => by simp [Assignment.unit, h t ht]

theorem eval_unit_of_mem {t : Term} {form : LinearForm} (hs : Sorted form) (h : t ∈ form) :
    eval (Assignment.unit t.var) form = t.coef := by
  induction form with
  | nil => simp at h
  | cons u rest ih =>
    obtain ⟨hu, hrest⟩ := List.pairwise_cons.1 hs
    rcases List.mem_cons.1 h with rfl | h
    · have habsent : ∀ w ∈ rest, w.var ≠ t.var := fun w hw => (hu w hw).ne'
      simp only [eval, eval_unit_of_absent habsent, Assignment.unit, if_true, mul_one, add_zero]
    · have hne : u.var ≠ t.var := (hu t h).ne
      simp only [eval, ih hrest h, Assignment.unit, hne, if_false, mul_zero, zero_add]

/-- **Collected terms.** A term is collected exactly when its coefficient is the sum for its variable and not
zero. -/
theorem mem_collect_iff {form : LinearForm} {t : Term} :
    t ∈ collect form ↔ t.coef ≠ 0 ∧ eval (Assignment.unit t.var) form = t.coef := by
  refine ⟨fun h => ⟨coef_ne_zero_of_mem_collect h, ?_⟩, fun ⟨h0, hc⟩ => ?_⟩
  · rw [← eval_collect]
    exact eval_unit_of_mem (sorted_collect form) h
  · rw [← eval_collect] at hc
    by_contra hn
    by_cases hvar : ∃ u ∈ collect form, u.var = t.var
    · obtain ⟨u, hu, huv⟩ := hvar
      have hcoef := eval_unit_of_mem (sorted_collect form) hu
      rw [huv, hc] at hcoef
      have hut : u = t := by
        cases u
        cases t
        simp_all
      exact hn (hut ▸ hu)
    · rw [eval_unit_of_absent fun u hu huv => hvar ⟨u, hu, huv⟩] at hc
      exact h0 hc.symm

/-- **The zero form.** Nothing is left of a form exactly when it is zero under every assignment. -/
theorem collect_eq_nil_iff (form : LinearForm) : collect form = [] ↔ ∀ v, eval v form = 0 := by
  constructor
  · intro h v
    rw [← eval_collect, h]
    rfl
  · intro h
    refine List.eq_nil_iff_forall_not_mem.2 fun t ht => ?_
    obtain ⟨h0, hc⟩ := mem_collect_iff.1 ht
    exact h0 (hc.symm.trans (h _))

/-! ## Normal form -/

theorem scale_normalize_ne_zero (form : LinearForm) : form.normalize.scale ≠ 0 := by
  simp only [normalize]
  split
  · exact one_ne_zero
  · rename_i t rest h
    exact coef_ne_zero_of_mem_collect (h ▸ List.mem_cons_self)

theorem eval_map_div (v : Assignment) (k : Rat) (form : LinearForm) :
    eval v (form.map fun t => ⟨t.coef / k, t.var⟩) = eval v form / k := by
  induction form with
  | nil => simp [eval]
  | cons t rest ih =>
    simp only [List.map_cons, eval, ih]
    ring

/-- **Normal form.** A form is its scale times its normal form. -/
theorem eval_normalize (v : Assignment) (form : LinearForm) :
    eval v form = form.normalize.scale * eval v form.normalize.form := by
  rw [← eval_collect]
  simp only [normalize]
  split
  · rename_i h
    rw [h]
    simp [eval]
  · rename_i t rest h
    have h0 : t.coef ≠ 0 := coef_ne_zero_of_mem_collect (h ▸ List.mem_cons_self)
    rw [h, eval_map_div, mul_div_cancel₀ _ h0]

theorem normalize_form_eq_nil_iff (form : LinearForm) : form.normalize.form = [] ↔ collect form = [] := by
  simp only [normalize]
  split
  · rename_i h
    simp [h]
  · rename_i h
    simp [h]

theorem var_of_mem_normalize {u : Term} {form : LinearForm} (h : u ∈ form.normalize.form) :
    ∃ t ∈ form, u.var = t.var := by
  simp only [normalize] at h
  split at h
  · simp at h
  · rename_i t rest hc
    obtain ⟨w, hw, rfl⟩ := List.mem_map.1 h
    have hmem : w ∈ collect form := hc ▸ hw
    obtain ⟨z, hz, hzw⟩ := var_of_mem_collect hmem
    exact ⟨z, hz, hzw⟩

/-! ## Coefficients of variables -/

def coefficient (x : Int) (form : LinearForm) : Rat := ((form.filter fun t => t.var = x).map (·.coef)).sum

theorem eval_unit (x : Int) (form : LinearForm) : eval (Assignment.unit x) form = coefficient x form := by
  induction form with
  | nil => rfl
  | cons t rest ih =>
    by_cases hx : t.var = x
    · simp [eval, coefficient, Assignment.unit, hx, ih]
    · simp [eval, coefficient, Assignment.unit, hx, ih]

theorem exists_var_collect_iff {x : Int} {form : LinearForm} :
    (∃ t ∈ collect form, t.var = x) ↔ coefficient x form ≠ 0 := by
  rw [← eval_unit]
  constructor
  · rintro ⟨t, ht, rfl⟩
    obtain ⟨h0, hsum⟩ := mem_collect_iff.1 ht
    exact hsum ▸ h0
  · intro h0
    exact ⟨⟨_, x⟩, mem_collect_iff.2 ⟨h0, rfl⟩, rfl⟩

/-- nothing is left of a form exactly when the coefficients of every variable cancel -/
theorem collect_eq_nil_iff_coefficient (form : LinearForm) : collect form = [] ↔ ∀ x, coefficient x form = 0 := by
  constructor
  · intro h x
    by_contra h0
    obtain ⟨t, ht, -⟩ := exists_var_collect_iff.2 h0
    rw [h] at ht
    cases ht
  · intro h
    refine List.eq_nil_iff_forall_not_mem.2 fun t ht => ?_
    exact exists_var_collect_iff.1 ⟨t, ht, rfl⟩ (h t.var)

theorem exists_var_normalize_iff {x : Int} {form : LinearForm} :
    (∃ t ∈ form.normalize.form, t.var = x) ↔ coefficient x form ≠ 0 := by
  rw [← exists_var_collect_iff]
  simp only [normalize]
  split
  · rename_i h
    rw [h]
  · rename_i h
    rw [h]
    simp only [List.mem_map, exists_exists_and_eq_and]

/-! ## Proportional forms -/

theorem Sorted.eq_of_mem_iff {a b : LinearForm} (ha : Sorted a) (hb : Sorted b) (h : ∀ t, t ∈ a ↔ t ∈ b) : a = b := by
  have hne : ∀ {form : LinearForm}, Sorted form → form.Nodup := fun hs => hs.imp fun hlt heq => by
    rw [heq] at hlt
    exact lt_irrefl _ hlt
  have hperm : a.Perm b := (List.perm_ext_iff_of_nodup (hne ha) (hne hb)).2 h
  exact hperm.eq_of_pairwise (fun t u _ _ htu hut => absurd htu hut.asymm) ha hb

theorem collect_of_multiple {k : Rat} (hk : k ≠ 0) {a b : LinearForm} (h : ∀ v, eval v a = k * eval v b) :
    collect a = (collect b).map fun t => ⟨k * t.coef, t.var⟩ := by
  refine (sorted_collect a).eq_of_mem_iff (List.pairwise_map.2 (sorted_collect b)) fun t => ?_
  rw [mem_collect_iff, h, List.mem_map]
  constructor
  · rintro ⟨h0, hsum⟩
    have hsum' : eval (Assignment.unit t.var) b = t.coef / k := by rw [← hsum, mul_div_cancel_left₀ _ hk]
    exact ⟨⟨t.coef / k, t.var⟩, mem_collect_iff.2 ⟨div_ne_zero h0 hk, hsum'⟩, by rw [mul_div_cancel₀ _ hk]⟩
  · rintro ⟨u, hu, rfl⟩
    obtain ⟨h0, hsum⟩ := mem_collect_iff.1 hu
    exact ⟨mul_ne_zero hk h0, by rw [hsum]⟩

/-- **Proportional forms** have the same normal form. -/
theorem form_normalize_of_multiple {k : Rat} (hk : k ≠ 0) {a b : LinearForm} (h : ∀ v, eval v a = k * eval v b) :
    a.normalize.form = b.normalize.form := by
  simp only [normalize, collect_of_multiple hk h]
  cases collect b with
  | nil => rfl
  | cons t rest => simp [mul_div_mul_left _ _ hk]

end LinearForm

end Halfspace
