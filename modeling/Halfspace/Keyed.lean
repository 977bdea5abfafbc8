/-
Finite maps from integers that remember the order of insertion.

A `Keyed α` is a list of entries with distinct keys. Putting a value under a key that is present replaces the value
in its place; a new key goes to the end. `entries` is the order of insertion, `byKey` the increasing one.
-/

namespace Halfspace

structure Keyed (α : Type) where
  entries : List (Int × α)
  distinct : (entries.map (·.1)).Nodup
  deriving Repr

namespace Keyed

variable {α β : Type}

def empty : Keyed α := ⟨[], List.nodup_nil⟩

instance : Inhabited (Keyed α) := ⟨empty⟩

/-- the value of the first entry with a key -/
def valueOf (k : Int) : List (Int × α) → Option α
  | [] => none
  | e :: rest => if k = e.1 then some e.2 else valueOf k rest

def get? (m : Keyed α) (k : Int) : Option α := valueOf k m.entries

def contains (m : Keyed α) (k : Int) : Bool := (m.get? k).isSome

/-- the keys in order of insertion -/
def keys (m : Keyed α) : List Int := m.entries.map (·.1)

def size (m : Keyed α) : Nat := m.entries.length

/-! ## Changes -/

/-- a list of entries after `v` is put under `k` -/
def putEntry (k : Int) (v : α) : List (Int × α) → List (Int × α)
  | [] => [(k, v)]
  | e :: rest => if e.1 = k then (k, v) :: rest else e :: putEntry k v rest

theorem mem_keys_putEntry {k k' : Int} {v : α} {es : List (Int × α)} (h : k' ∈ (putEntry k v es).map (·.1)) :
    k' = k ∨ k' ∈ es.map (·.1) := by
  induction es with
  | nil => simpa [putEntry] using h
  | cons e rest ih =>
    by_cases he : e.1 = k
    · simp only [putEntry, he, if_true, List.map_cons, List.mem_cons] at h ⊢
      rcases h with h | h
      · exact Or.inl h
      · exact Or.inr (Or.inr h)
    · simp only [putEntry, he, if_false, List.map_cons, List.mem_cons] at h ⊢
      rcases h with h | h
      · exact Or.inr (Or.inl h)
      · rcases ih h with h | h
        · exact Or.inl h
        · exact Or.inr (Or.inr h)

theorem nodup_putEntry {k : Int} {v : α} {es : List (Int × α)} (h : (es.map (·.1)).Nodup) :
    ((putEntry k v es).map (·.1)).Nodup := by
  induction es with
  | nil => simp [putEntry]
  | cons e rest ih =>
    obtain ⟨hhead, htail⟩ := List.nodup_cons.1 h
    by_cases he : e.1 = k
    · subst he
      simpa only [putEntry, if_true, List.map_cons] using List.nodup_cons.2 ⟨hhead, htail⟩
    · simp only [putEntry, he, if_false, List.map_cons]
      refine List.nodup_cons.2 ⟨fun hmem => ?_, ih htail⟩
      rcases mem_keys_putEntry hmem with h' | h'
      · exact he h'
      · exact hhead h'

/-- put a value under a key -/
def put (m : Keyed α) (k : Int) (v : α) : Keyed α := ⟨putEntry k v m.entries, nodup_putEntry m.distinct⟩

/-- forget a key -/
def remove (m : Keyed α) (k : Int) : Keyed α :=
  ⟨m.entries.filter (·.1 != k), m.distinct.sublist (List.filter_sublist.map _)⟩

/-- change every value -/
def mapValues (f : α → β) (m : Keyed α) : Keyed β :=
  ⟨m.entries.map fun e => (e.1, f e.2), by simpa [Function.comp_def] using m.distinct⟩

/-- a map from a list of entries, where a later entry wins -/
def ofList (es : List (Int × α)) : Keyed α := es.foldl (fun m e => m.put e.1 e.2) empty

/-! ## What each change does to look-ups -/

@[simp] theorem get?_empty (k : Int) : (empty : Keyed α).get? k = none := rfl

theorem valueOf_putEntry (k k' : Int) (v : α) (es : List (Int × α)) :
    valueOf k' (putEntry k v es) = if k' = k then some v else valueOf k' es := by
  induction es with
  | nil => simp [putEntry, valueOf]
  | cons e rest ih =>
    by_cases he : e.1 = k
    · subst he
      by_cases h : k' = e.1 <;> simp [putEntry, valueOf, h]
    · by_cases h : k' = e.1
      · subst h
        simp [putEntry, valueOf, he]
      · simp [putEntry, valueOf, he, h, ih]

@[simp] theorem get?_put (m : Keyed α) (k k' : Int) (v : α) :
    (m.put k v).get? k' = if k' = k then some v else m.get? k' :=
  valueOf_putEntry k k' v m.entries

theorem valueOf_filter_ne (k k' : Int) (es : List (Int × α)) :
    valueOf k' (es.filter (·.1 != k)) = if k' = k then none else valueOf k' es := by
  induction es with
  | nil => simp [valueOf]
  | cons e rest ih =>
    by_cases he : e.1 = k
    · subst he
      simp only [List.filter_cons, bne_self_eq_false, Bool.false_eq_true, if_false, ih, valueOf]
      by_cases h : k' = e.1 <;> simp [h]
    · have hb : (e.1 != k) = true := by simpa using he
      simp only [List.filter_cons, hb, if_true, valueOf, ih]
      by_cases h : k' = e.1
      · subst h
        simp [he]
      · simp [h]

@[simp] theorem get?_remove (m : Keyed α) (k k' : Int) :
    (m.remove k).get? k' = if k' = k then none else m.get? k' :=
  valueOf_filter_ne k k' m.entries

theorem valueOf_map (f : α → β) (k : Int) (es : List (Int × α)) :
    valueOf k (es.map fun e => (e.1, f e.2)) = (valueOf k es).map f := by
  induction es with
  | nil => rfl
  | cons e rest ih => by_cases h : k = e.1 <;> simp [valueOf, h, ih]

@[simp] theorem get?_mapValues (f : α → β) (m : Keyed α) (k : Int) : (m.mapValues f).get? k = (m.get? k).map f :=
  valueOf_map f k m.entries

/-! ## Increasing keys -/

/-- a list of entries with one more, before the first whose key is not lower -/
def insertByKey (e : Int × α) : List (Int × α) → List (Int × α)
  | [] => [e]
  | f :: rest => if e.1 ≤ f.1 then e :: f :: rest else f :: insertByKey e rest

/-- the entries by increasing key -/
def byKey (m : Keyed α) : List (Int × α) := m.entries.foldr insertByKey []

/-- the keys in increasing order -/
def sortedKeys (m : Keyed α) : List Int := m.byKey.map (·.1)

end Keyed

end Halfspace
