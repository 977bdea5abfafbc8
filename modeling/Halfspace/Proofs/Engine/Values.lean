/-
The values of columns as a vector.

A state of the engine lists the values of its columns. `look A xs j` is the value of column `j` in such a list; as
long as the columns are those of the list, assigning and shifting one column changes it there and nowhere else.
- `rowValue_eq_total`: summing a row over the list gives its total;
- `look_drag`: moving a column by `θ` moves every other basic column by its coefficient times `θ`;
- `foldlM_assign_spec`: filling in the basic columns leaves the others alone and gives each the total of its row.
-/
import Halfspace.Proofs.Engine.Rows
import Halfspace.Simplex

namespace Halfspace

variable {K V α : Type}

/-! ## Positions inside a list -/

theorem fromFront?_of_within {n : Nat} {j : Int} (h : 0 ≤ j ∧ j < n) : fromFront? n j = some j.toNat := by
  have hneg : ¬j < 0 := not_lt.2 h.1
  simp [fromFront?, hneg, h]

theorem fetch?_of_within {xs : List α} {j : Int} (h : 0 ≤ j ∧ j < xs.length) : fetch? xs j = xs[j.toNat]? := by
  simp [fetch?, fromFront?_of_within h]

theorem fetch?_natCast {xs : List α} {j : Nat} (h : j < xs.length) : fetch? xs (j : Int) = xs[j]? := by
  rw [fetch?, fromFront?_natCast h]
  rfl

theorem Problem.getElem?_spans {p : Problem K V} {j : Nat} (hj : j < p.width) : p.spans[j]? = some (p.span j) := by
  have hlt : j < p.spans.length := hj
  simp [span, fetch?_natCast hlt, List.getElem?_eq_getElem hlt]

namespace Simplex

open Keyed

theorem State.getElem?_values (A : Arithmetic K V) {s : State K V} {j : Nat} (hj : j < s.values.length) :
    s.values[j]? = some (s.value A j) := by
  simp [value, fetch?_natCast hj, List.getElem?_eq_getElem hj]

def look (A : Arithmetic K V) (xs : List V) (j : Int) : V := (fetch? xs j).getD A.zero

theorem fetch_eq_look {A : Arithmetic K V} {xs : List V} {j : Int} (h : 0 ≤ j ∧ j < xs.length) :
    fetch xs j = .ok (look A xs j) := by
  have hlt : j.toNat < xs.length := by omega
  simp [fetch, look, fetch?_of_within h, List.getElem?_eq_getElem hlt]

theorem look_replaceAt {A : Arithmetic K V} {xs : List V} {j k : Int} (hj : 0 ≤ j ∧ j < xs.length)
    (hk : 0 ≤ k ∧ k < xs.length) (v : V) : look A (replaceAt xs j v) k = if k = j then v else look A xs k := by
  have hk' : 0 ≤ k ∧ k < (replaceAt xs j v).length := by simpa using hk
  have hset : replaceAt xs j v = xs.set j.toNat v := by simp [replaceAt, fromFront?_of_within hj]
  rw [look, look, fetch?_of_within hk, fetch?_of_within hk', hset]
  split_ifs with h
  · have hlt : j.toNat < xs.length := by omega
    simp [h, hlt]
  · have hne : j.toNat ≠ k.toNat := by omega
    rw [List.getElem?_set_ne hne]

theorem assign_of_within {xs : List V} {j : Int} (h : 0 ≤ j ∧ j < xs.length) (v : V) :
    assign xs j v = .ok (replaceAt xs j v) := by
  simp [assign, fromFront?_of_within h]

theorem length_shift (A : Arithmetic K V) (xs : List V) (j : Int) (d : V) :
    (shift A xs j d).length = xs.length :=
  length_replaceAt _ _ _

theorem look_shift {A : Arithmetic K V} {xs : List V} {j k : Int} (hj : 0 ≤ j ∧ j < xs.length)
    (hk : 0 ≤ k ∧ k < xs.length) (d : V) :
    look A (shift A xs j d) k = if k = j then A.plus (look A xs j) d else look A xs k :=
  look_replaceAt hj hk _

/-! ## Summing rows -/

theorem rowValue_eq_total {row : Row Rat} {xs : List Delta} (h : ∀ j ∈ row.keys, 0 ≤ j ∧ j < xs.length) :
    rowValue Arithmetic.exact row xs = .ok (Row.total row (look Arithmetic.exact xs)) := by
  have hfold : ∀ (es : List (Int × Rat)) (start : Delta), (∀ e ∈ es, 0 ≤ e.1 ∧ e.1 < xs.length) →
      es.foldlM (fun total e => do
        return Arithmetic.exact.plus total (Arithmetic.exact.scale e.2 (← fetch xs e.1))) start =
        (.ok (start + (es.map fun e => e.2 • look Arithmetic.exact xs e.1).sum) : Except Fault Delta) := by
    intro es
    induction es with
    | nil =>
      intro start _
      simp only [List.map_nil, List.sum_nil, add_zero]
      rfl
    | cons e rest ih =>
      intro start hes
      rw [List.foldlM_cons, fetch_eq_look (A := Arithmetic.exact) (hes e List.mem_cons_self)]
      refine (ih _ fun e' he' => hes e' (List.mem_cons_of_mem _ he')).trans ?_
      rw [List.map_cons, List.sum_cons, ← add_assoc]
      rfl
  have h' := hfold row.entries Arithmetic.exact.zero fun e he => h e.1 (mem_keys_of_mem_entries he)
  rw [rowValue, h']
  exact congrArg Except.ok (zero_add _)

/-! ## Moving the basic columns -/

/-- how much basic column `k` moves when column `j` moves by `θ`; the leaving column `b` does not -/
def follow (es : List (Int × Row Rat)) (b j : Int) (theta : Delta) (k : Int) : Delta :=
  if k = b then 0 else (((valueOf k es).bind (·.get? j)).getD 0) • theta

theorem length_drag {A : Arithmetic K V} {es : List (Int × Row K)} {b j : Int} {theta : V} {xs : List V} :
    (drag A es b j theta xs).length = xs.length := by
  unfold drag
  induction es generalizing xs with
  | nil => rfl
  | cons e rest ih =>
    rw [List.foldl_cons, ih]
    split
    · split_ifs
      · rfl
      · exact length_shift _ _ _ _
    · rfl

theorem look_drag_single {e : Int × Row Rat} {b j : Int} {theta : Delta} {xs : List Delta}
    (he : 0 ≤ e.1 ∧ e.1 < xs.length) {k : Int} (hk : 0 ≤ k ∧ k < xs.length) :
    look Arithmetic.exact (drag Arithmetic.exact [e] b j theta xs) k =
      look Arithmetic.exact xs k + follow [e] b j theta k := by
  simp only [drag, List.foldl_cons, List.foldl_nil]
  cases hget : e.2.get? j with
  | none => by_cases hke : k = e.1 <;> simp [follow, valueOf, hke, hget]
  | some c =>
    dsimp only
    split_ifs with heb
    · by_cases hke : k = e.1
      · simp [follow, hke, heb]
      · simp [follow, valueOf, hke]
    · rw [look_shift he hk]
      split_ifs with hke
      · subst hke
        simp [follow, valueOf, hget, heb]
      · simp [follow, valueOf, hke]

theorem look_drag {es : List (Int × Row Rat)} {b j : Int} {theta : Delta} {xs : List Delta}
    (hd : (es.map (·.1)).Nodup) (hes : ∀ e ∈ es, 0 ≤ e.1 ∧ e.1 < xs.length) {k : Int}
    (hk : 0 ≤ k ∧ k < xs.length) :
    look Arithmetic.exact (drag Arithmetic.exact es b j theta xs) k =
      look Arithmetic.exact xs k + follow es b j theta k := by
  induction es generalizing xs with
  | nil => simp [drag, follow, valueOf]
  | cons e rest ih =>
    obtain ⟨hhead, hrest⟩ := List.nodup_cons.1 hd
    have hnone : valueOf e.1 rest = none := by
      cases hv : valueOf e.1 rest with
      | none => rfl
      | some row => exact absurd (List.mem_map.2 ⟨_, (valueOf_eq_some_iff hrest).1 hv, rfl⟩) hhead
    have hlen : (drag Arithmetic.exact [e] b j theta xs).length = xs.length := length_drag
    have hsplit : drag Arithmetic.exact (e :: rest) b j theta xs =
        drag Arithmetic.exact rest b j theta (drag Arithmetic.exact [e] b j theta xs) := rfl
    rw [hsplit,
        ih hrest (fun e' he' => by rw [hlen]; exact hes e' (List.mem_cons_of_mem _ he')) (by rw [hlen]; exact hk),
      look_drag_single (hes e List.mem_cons_self) hk, add_assoc]
    congr 1
    by_cases hke : k = e.1
    · subst hke
      simp [follow, valueOf, hnone]
    · simp [follow, valueOf, hke]

/-! ## Filling in the basic columns -/

/-- the basic columns get the totals of their rows, which hold none of them; the other columns keep their values -/
theorem foldlM_assign_spec {es : List (Int × Row Rat)} (basic : List Int) (n : Nat) (hd : (es.map (·.1)).Nodup)
    (hbasic : ∀ e ∈ es, e.1 ∈ basic) (hes : ∀ e ∈ es, 0 ≤ e.1 ∧ e.1 < n)
    (hrows : ∀ e ∈ es, ∀ j ∈ e.2.keys, j ∉ basic ∧ 0 ≤ j ∧ j < n) {xs : List Delta} (hlen : xs.length = n) :
    ∃ ys, es.foldlM (fun values r => do assign values r.1 (← rowValue Arithmetic.exact r.2 values)) xs = .ok ys ∧
      ys.length = n ∧
      (∀ e ∈ es, look Arithmetic.exact ys e.1 = Row.total e.2 (look Arithmetic.exact ys)) ∧
      ∀ k : Int, 0 ≤ k ∧ k < n → k ∉ es.map (·.1) → look Arithmetic.exact ys k = look Arithmetic.exact xs k := by
  subst hlen
  induction es generalizing xs with
  | nil => exact ⟨xs, rfl, rfl, by simp, fun _ _ _ => rfl⟩
  | cons e rest ih =>
    obtain ⟨hhead, hrest⟩ := List.nodup_cons.1 hd
    have hin := hes e List.mem_cons_self
    set zs := replaceAt xs e.1 (Row.total e.2 (look Arithmetic.exact xs)) with hzs
    have hzlen : zs.length = xs.length := length_replaceAt _ _ _
    have hes' : ∀ e' ∈ rest, 0 ≤ e'.1 ∧ e'.1 < zs.length :=
      fun e' he' => by simpa [hzlen] using hes e' (List.mem_cons_of_mem _ he')
    obtain ⟨ys, hys, hylen, hrow, hkeep⟩ := ih hrest (fun e' he' => hbasic e' (List.mem_cons_of_mem _ he')) hes'
      (fun e' he' j hj => by simpa [hzlen] using hrows e' (List.mem_cons_of_mem _ he') j hj)
    refine ⟨ys, ?_, hylen.trans hzlen, fun e' he' => ?_, fun k hk hnot => ?_⟩
    · rw [List.foldlM_cons, rowValue_eq_total fun j hj => (hrows e List.mem_cons_self j hj).2]
      show (assign xs e.1 _ >>= fun values => rest.foldlM _ values) = _
      rw [assign_of_within hin]
      exact hys
    · rcases List.mem_cons.1 he' with rfl | he'
      · -- the columns of its row are not basic, so that no later assignment reaches them
        have hsame : ∀ f ∈ e'.2.entries, look Arithmetic.exact ys f.1 = look Arithmetic.exact xs f.1 := by
          intro f hf
          obtain ⟨hnb, hfin⟩ := hrows e' List.mem_cons_self f.1 (mem_keys_of_mem_entries hf)
          have hne : f.1 ≠ e'.1 := fun h => hnb (h ▸ hbasic e' List.mem_cons_self)
          have hnot : f.1 ∉ rest.map (·.1) := by
            intro h
            obtain ⟨g, hg, hgf⟩ := List.mem_map.1 h
            exact hnb (hgf ▸ hbasic g (List.mem_cons_of_mem _ hg))
          rw [hkeep f.1 (by rw [hzlen]; exact hfin) hnot, look_replaceAt hin hfin, if_neg hne]
        rw [hkeep e'.1 (by rw [hzlen]; exact hin) hhead, look_replaceAt hin hin, if_pos rfl]
        exact (Row.total_congr hsame).symm
      · exact hrow e' he'
    · simp only [List.map_cons, List.mem_cons, not_or] at hnot
      rw [hkeep k (by rw [hzlen]; exact hk) hnot.2, look_replaceAt hin hk, if_neg hnot.1]

end Simplex

end Halfspace
