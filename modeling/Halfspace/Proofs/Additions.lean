/-
Variables that come late.

A new variable brings a side of its own, but no constraint uses it yet, so that it is not active and its side gets no
column. The problem stays as it was, in every arithmetic and with every name in its place, or fails as it did.
- `usedSides_addVar`: the sides in use;
- `assemble_addVar`: the whole problem.
-/
import Halfspace.Proofs.Alignment

namespace Halfspace

open LinearForm

namespace Solver

open Assembly

variable {s : Solver} {K V : Type}

/-! ## The new side -/

/-- a new variable leaves the sides alone and brings at most its own -/
theorem Registered.exists_tail (h : Registered s) (name : String) :
    ∃ tail, (s.addVar name).store.sides = s.store.sides ++ tail ∧
      ∀ form ∈ tail, form = [⟨1, (s.vars.count : Int)⟩] := by
  obtain ⟨i, store, hplace, hext⟩ := FormStore.place_spec [⟨1, (s.vars.count : Int)⟩] h.distinct
    (by rw [normalize_unit]; simp)
  simp only [normalize_unit] at hplace hext
  obtain ⟨tail, htail⟩ := hext.appended
  have hstore : (s.addVar name).store = store := by simp [addVar, FormStore.placeVar, hplace]
  refine ⟨tail, by rw [hstore, htail], ?_⟩
  intro form hform
  have hdisjoint := (List.nodup_append.1 (htail ▸ hext.distinct)).2.2
  rcases hext.mem form (htail ▸ List.mem_append_right _ hform) with hold | hnew
  · exact absurd rfl (hdisjoint form hold form hform)
  · exact hnew

theorem Registered.getD_addVar (h : Registered s) (name : String) {i : Nat} (hi : i < s.store.size) :
    (s.addVar name).store.sides.getD i [] = s.store.sides.getD i [] := by
  obtain ⟨tail, htail, -⟩ := h.exists_tail name
  rw [htail, List.getD_eq_getElem?_getD, List.getD_eq_getElem?_getD, List.getElem?_append_left hi]

theorem Sparing.not_active (h : Sparing s) (hs : Registered s) : s.vars.isActive s.vars.count = false := by
  by_contra hactive
  obtain ⟨c, hc, hcoef⟩ := (h.active_iff s.vars.count).1 (by simpa using hactive)
  obtain ⟨t, ht, hvar⟩ := exists_var_collect_iff.2 hcoef
  obtain ⟨u, hu, hsame⟩ := var_of_mem_collect ht
  have hknown := (hs.terms_known c hc u hu).2
  omega

/-- **Sides in use.** A new variable brings none. -/
theorem usedSides_addVar (h : Registered s) (hs : Sparing s) (name : String) :
    usedSides (s.addVar name).store (s.addVar name).vars = usedSides s.store s.vars := by
  obtain ⟨tail, htail, hunit⟩ := h.exists_tail name
  have hsize : (s.addVar name).store.size = s.store.size + tail.length := by
    rw [FormStore.size, htail, List.length_append]
    rfl
  have hold : ∀ i ∈ List.range s.store.size,
      isUsed (s.addVar name).vars ((s.addVar name).store.sides.getD i []) =
        isUsed s.vars (s.store.sides.getD i []) := by
    intro i hi
    rw [h.getD_addVar name (List.mem_range.1 hi)]
    rfl
  have hnew : ∀ i ∈ (List.range tail.length).map (s.store.size + ·),
      ¬isUsed (s.addVar name).vars ((s.addVar name).store.sides.getD i []) = true := by
    intro i hi
    obtain ⟨j, hj, rfl⟩ := List.mem_map.1 hi
    have hside : (s.addVar name).store.sides.getD (s.store.size + j) [] = [⟨1, (s.vars.count : Int)⟩] := by
      apply hunit
      rw [htail, List.getD_eq_getElem?_getD, FormStore.size, List.getElem?_append_right (Nat.le_add_right _ _)]
      simp [List.mem_range.1 hj]
    have hinactive : (s.addVar name).vars.isActive s.vars.count = false := hs.not_active h
    rw [hside]
    simp [isUsed, soleVar?, hinactive]
  rw [usedSides, usedSides, hsize, List.range_add, List.filter_append, List.filter_eq_nil_iff.2 hnew, List.append_nil]
  exact List.filter_congr hold

/-! ## The problem -/

theorem slacks_addVar (h : Registered s) (name : String) {sides : List Nat} (hsides : ∀ i ∈ sides, i < s.store.size) :
    slacks (s.addVar name).store sides = slacks s.store sides := by
  unfold slacks
  refine congrArg (List.filter _) (List.map_congr_left ?_)
  intro e he
  rw [h.getD_addVar name (hsides e.1 (List.fst_mem_of_mem_zipIdx he))]

theorem columnOfVar_addVar (h : Registered s) (name : String) (sides : List Nat) {x : Int}
    (hx : 0 ≤ x ∧ x < s.vars.count) :
    columnOfVar (s.addVar name).store sides x = columnOfVar s.store sides x := by
  obtain ⟨tail, htail, -⟩ := h.exists_tail name
  obtain ⟨i, -, hside⟩ := h.exists_varSide hx
  have hside' : (s.addVar name).store.sides[i]? = some [⟨1, x⟩] := by
    rw [htail, List.getElem?_append_left (List.getElem?_eq_some_iff.1 hside).1, hside]
  unfold columnOfVar
  rw [(FormStore.find?_unit_eq_some_iff h.distinct).2 hside,
    (FormStore.find?_unit_eq_some_iff (registered_addVar h name).distinct).2 hside']

theorem rowOf_addVar (h : Registered s) (name : String) (A : Arithmetic K V) (sides : List Nat) {side : LinearForm}
    (hside : side ∈ s.store.sides) (own : Int) :
    rowOf A (s.addVar name).store sides side own = rowOf A s.store sides side own := by
  unfold rowOf
  rw [foldlM_congr]
  intro row t ht
  rw [columnOfVar_addVar h name sides (h.known side hside t ht)]

theorem nameOf_addVar (h : Registered s) (name : String) {i : Nat} (hi : i < s.store.size) :
    Assembly.nameOf (s.addVar name).vars (s.addVar name).store i = Assembly.nameOf s.vars s.store i := by
  unfold Assembly.nameOf
  rw [h.getD_addVar name hi]
  split
  · rename_i x hx
    obtain ⟨t, ht, rfl⟩ := mem_of_soleVar? hx
    obtain ⟨hnonneg, hlt⟩ := h.known _ (FormStore.getD_mem hi) t ht
    have hcount : (s.addVar name).vars.count = s.vars.count + 1 := by simp [addVar, Variables.add, Variables.count]
    have hold : s.vars.position? (.id t.var) = some t.var.toNat := if_pos ⟨hnonneg, hlt⟩
    have hnew : (s.addVar name).vars.position? (.id t.var) = some t.var.toNat := if_pos ⟨hnonneg, by omega⟩
    have hname : (s.addVar name).vars.names[t.var.toNat]? = s.vars.names[t.var.toNat]? := by
      refine List.getElem?_append_left ?_
      show t.var.toNat < s.vars.count
      omega
    unfold Variables.name
    rw [hold, hnew, Option.bind_some, Option.bind_some, hname]
  · rfl

theorem Registered.intervals_addVar (h : Registered s) (name : String) {i : Nat} (hi : i < s.store.size) :
    (s.addVar name).intervals[i]? = s.intervals[i]? := by
  have hlength : s.intervals.length = s.store.size := by simp [h.intervals]
  refine List.getElem?_append_left ?_
  rw [hlength]
  exact hi

/-- **The problem** of a state does not change when a variable is added, in whatever arithmetic. -/
theorem assemble_addVar (h : Registered s) (hs : Sparing s) (name : String) (A : Arithmetic K V) :
    (s.addVar name).assemble A = s.assemble A := by
  have hstored : ∀ i ∈ usedSides s.store s.vars, i < s.store.size := fun i hi => (mem_usedSides.1 hi).1
  have hnames : (usedSides s.store s.vars).mapM (Assembly.nameOf (s.addVar name).vars (s.addVar name).store) =
      (usedSides s.store s.vars).mapM (Assembly.nameOf s.vars s.store) :=
    mapM_congr fun i hi => nameOf_addVar h name (hstored i hi)
  have hrows : (slacks s.store (usedSides s.store s.vars)).mapM
        (fun e => rowOf A (s.addVar name).store (usedSides s.store s.vars) e.2 e.1) =
      (slacks s.store (usedSides s.store s.vars)).mapM
        fun e => rowOf A s.store (usedSides s.store s.vars) e.2 e.1 := by
    refine mapM_congr ?_
    intro e he
    obtain ⟨i, hi, hform, -⟩ := mem_slacks.1 he
    exact rowOf_addVar h name A _ (hform ▸ FormStore.getD_mem (hstored i (List.mem_of_getElem? hi))) _
  have hintervals : (usedSides s.store s.vars).map (fun i => (s.addVar name).intervals.getD i Interval.whole) =
      (usedSides s.store s.vars).map fun i => s.intervals.getD i Interval.whole := by
    refine List.map_congr_left ?_
    intro i hi
    rw [List.getD_eq_getElem?_getD, List.getD_eq_getElem?_getD, h.intervals_addVar name (hstored i hi)]
  unfold assemble ofSides
  simp only [usedSides_addVar h hs, slacks_addVar h name hstored, hnames, hrows, hintervals]

end Solver

end Halfspace
