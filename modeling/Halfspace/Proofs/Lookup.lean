/-
Look-ups in keyed maps, and searches in the order of keys.

Keys are distinct, so that an entry is found exactly where it stands (`get?_eq_some_iff`). A search in increasing
order of keys ends at the least key that passes (`find?_byKey_eq_some`, `findSome?_sortedKeys_eq_some`), whatever the
order of insertion was.
-/
import Halfspace.Keyed
import Mathlib.Tactic

namespace Halfspace.Keyed

variable {α β : Type} {m : Keyed α}

/-! ## Entries and keys -/

theorem valueOf_eq_some_iff {k : Int} {v : α} {es : List (Int × α)} (hd : (es.map (·.1)).Nodup) :
    valueOf k es = some v ↔ (k, v) ∈ es := by
  induction es with
  | nil => simp [valueOf]
  | cons e rest ih =>
    obtain ⟨hhead, hrest⟩ := List.nodup_cons.1 hd
    simp only [valueOf, List.mem_cons]
    split_ifs with h
    · constructor
      · intro hv
        cases hv
        exact Or.inl (by rw [h])
      · rintro (hv | hv)
        · rw [← hv]
        · exact absurd (List.mem_map.2 ⟨_, hv, h⟩) hhead
    · rw [ih hrest]
      constructor
      · exact Or.inr
      · rintro (hv | hv)
        · exact absurd (by rw [← hv]) h
        · exact hv

theorem get?_eq_some_iff {k : Int} {v : α} : m.get? k = some v ↔ (k, v) ∈ m.entries :=
  valueOf_eq_some_iff m.distinct

theorem mem_keys_iff {k : Int} : k ∈ m.keys ↔ ∃ v, m.get? k = some v := by
  simp only [keys, List.mem_map, get?_eq_some_iff]
  constructor
  · rintro ⟨e, he, rfl⟩
    exact ⟨e.2, he⟩
  · rintro ⟨v, hv⟩
    exact ⟨_, hv, rfl⟩

theorem nodup_keys (m : Keyed α) : m.keys.Nodup := m.distinct

theorem mem_keys_of_mem_entries {e : Int × α} (h : e ∈ m.entries) : e.1 ∈ m.keys := List.mem_map.2 ⟨e, h, rfl⟩

theorem get?_eq_none_iff {k : Int} : m.get? k = none ↔ k ∉ m.keys := by
  rw [mem_keys_iff]
  cases h : m.get? k <;> simp

theorem contains_iff {k : Int} : m.contains k = true ↔ k ∈ m.keys := by
  rw [mem_keys_iff, contains, Option.isSome_iff_exists]

theorem mem_keys_put {k k' : Int} {v : α} : k' ∈ (m.put k v).keys ↔ k' = k ∨ k' ∈ m.keys := by
  rw [mem_keys_iff, mem_keys_iff, get?_put]
  split_ifs with h
  · simp [h]
  · simp [h]

theorem mem_keys_remove {k k' : Int} : k' ∈ (m.remove k).keys ↔ k' ≠ k ∧ k' ∈ m.keys := by
  rw [mem_keys_iff, mem_keys_iff, get?_remove]
  split_ifs with h
  · simp [h]
  · simp [h]

theorem mem_keys_mapValues {f : α → β} {k : Int} : k ∈ (m.mapValues f).keys ↔ k ∈ m.keys := by
  rw [mem_keys_iff, mem_keys_iff, get?_mapValues]
  cases m.get? k <;> simp

/-! ## Searches by increasing key -/

theorem perm_insertByKey (e : Int × α) (es : List (Int × α)) : (insertByKey e es).Perm (e :: es) := by
  induction es with
  | nil => exact .refl _
  | cons f rest ih =>
    rw [insertByKey]
    split_ifs
    · exact .refl _
    · exact (ih.cons f).trans (.swap e f rest)

theorem perm_byKey (m : Keyed α) : m.byKey.Perm m.entries := by
  unfold byKey
  induction m.entries with
  | nil => exact .refl _
  | cons e rest ih => exact (perm_insertByKey e _).trans (ih.cons e)

theorem pairwise_insertByKey (e : Int × α) {es : List (Int × α)} (h : es.Pairwise fun a b => a.1 ≤ b.1) :
    (insertByKey e es).Pairwise fun a b => a.1 ≤ b.1 := by
  induction es with
  | nil => exact List.pairwise_singleton _ _
  | cons f rest ih =>
    obtain ⟨hhead, htail⟩ := List.pairwise_cons.1 h
    rw [insertByKey]
    split_ifs with hle
    · refine List.pairwise_cons.2 ⟨fun g hg => ?_, h⟩
      rcases List.mem_cons.1 hg with rfl | hg
      · exact hle
      · exact hle.trans (hhead g hg)
    · refine List.pairwise_cons.2 ⟨fun g hg => ?_, ih htail⟩
      rcases List.mem_cons.1 ((perm_insertByKey e rest).mem_iff.1 hg) with rfl | hg
      · exact (not_le.1 hle).le
      · exact hhead g hg

theorem mem_byKey {e : Int × α} : e ∈ m.byKey ↔ e ∈ m.entries := (perm_byKey m).mem_iff

theorem nodup_byKey : (m.byKey.map (·.1)).Nodup := ((perm_byKey m).map _).nodup_iff.2 m.distinct

theorem pairwise_byKey : m.byKey.Pairwise fun a b => a.1 < b.1 := by
  have hle : m.byKey.Pairwise fun a b => a.1 ≤ b.1 := by
    unfold byKey
    induction m.entries with
    | nil => exact .nil
    | cons e rest ih => exact pairwise_insertByKey e ih
  exact hle.imp₂ (fun _ _ h1 h2 => lt_of_le_of_ne h1 h2) (List.pairwise_map.1 nodup_byKey)

theorem mem_sortedKeys {k : Int} : k ∈ m.sortedKeys ↔ k ∈ m.keys := ((perm_byKey m).map _).mem_iff

theorem pairwise_sortedKeys : m.sortedKeys.Pairwise (· < ·) := List.pairwise_map.2 pairwise_byKey

/-- a search ends at the least key that passes -/
theorem find?_byKey_eq_some {f : Int × α → Bool} {e : Int × α} (h : m.byKey.find? f = some e) :
    e ∈ m.entries ∧ f e = true ∧ ∀ e' ∈ m.entries, e'.1 < e.1 → f e' = false := by
  obtain ⟨hf, as, bs, hsplit, has⟩ := List.find?_eq_some_iff_append.1 h
  have hmem : e ∈ m.byKey := by simp [hsplit]
  refine ⟨mem_byKey.1 hmem, hf, fun e' he' hlt => ?_⟩
  have hsorted := pairwise_byKey (m := m)
  rw [hsplit] at hsorted
  have he'' := mem_byKey.2 he'
  rw [hsplit, List.mem_append, List.mem_cons] at he''
  rcases he'' with h | rfl | h
  · simpa using has e' h
  · omega
  · have := (List.pairwise_cons.1 (List.pairwise_append.1 hsorted).2.1).1 e' h
    omega

theorem findSome?_sortedKeys_eq_some {f : Int → Option β} {c : β} (h : m.sortedKeys.findSome? f = some c) :
    ∃ k ∈ m.keys, f k = some c ∧ ∀ k' ∈ m.keys, k' < k → f k' = none := by
  obtain ⟨as, k, bs, hsplit, hf, has⟩ := List.findSome?_eq_some_iff.1 h
  have hmem : k ∈ m.sortedKeys := by simp [hsplit]
  refine ⟨k, mem_sortedKeys.1 hmem, hf, fun k' hk' hlt => ?_⟩
  have hsorted := pairwise_sortedKeys (m := m)
  rw [hsplit] at hsorted
  have hk'' := mem_sortedKeys.2 hk'
  rw [hsplit, List.mem_append, List.mem_cons] at hk''
  rcases hk'' with h | rfl | h
  · exact has k' h
  · omega
  · have := (List.pairwise_cons.1 (List.pairwise_append.1 hsorted).2.1).1 k' h
    omega

end Halfspace.Keyed
