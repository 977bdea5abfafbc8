/-
Tableaux as systems of equations.

`Tableau.Solves t x` says that the values `x` give every basic column the value of its row. In a separate tableau,
where no basic column occurs in a row, the columns outside the basis can be chosen freely and the basic ones follow.
- `ofProblem_spec`: the first tableau exists, is separate, and is solved by the values at which all rows vanish;
- `length_keys_ofProblem`: it has as many basic columns as the problem has rows;
- `separate_pivot`, `within_pivot`: an exchange keeps tableaux separate and brings in no column;
- `length_keys_pivot`: an exchange keeps the number of basic columns;
- `solves_pivot_iff`: an exchange keeps the solutions, whatever the values are;
- `solves_fill`: any values outside the basis are those of a solution.
-/
import Halfspace.Proofs.Engine.Rows

namespace Halfspace

open Keyed

variable {K V M : Type} [AddCommGroup M] [Module Rat M]

/-- rows over the columns of the problem, each with a usable coefficient for a column of its own, which occurs in no
other row -/
structure Problem.Framed (A : Arithmetic K V) (p : Problem K V) : Prop where
  paired : p.rows.length = p.basis.length
  ranged : ∀ row ∈ p.rows, ∀ j ∈ row.keys, 0 ≤ j ∧ j < p.width
  solvable : ∀ r ∈ p.rows.zip p.basis, ∃ c, r.1.get? r.2 = some c ∧ A.isNull c = false
  distinct : p.basis.Nodup
  alone : ∀ r ∈ p.rows.zip p.basis, ∀ b ∈ p.basis, b ∈ r.1.keys → b = r.2

/-- a framed problem over exact numbers whose bounds leave room in every column -/
structure Problem.Regular (p : Problem Rat Delta) : Prop extends Problem.Framed Arithmetic.exact p where
  ordered : ∀ s ∈ p.spans, ∀ l u, s.low = some l → s.upper = some u → l ≤ u

def Problem.Vanishes (p : Problem Rat V) (x : Int → M) : Prop := ∀ row ∈ p.rows, Row.total row x = 0

namespace Tableau

def Separate (t : Tableau K) : Prop := ∀ b row, t.get? b = some row → ∀ j ∈ row.keys, j ∉ t.keys

structure Within (n : Nat) (t : Tableau K) : Prop where
  basic : ∀ b ∈ t.keys, 0 ≤ b ∧ b < n
  row : ∀ b row, t.get? b = some row → ∀ j ∈ row.keys, 0 ≤ j ∧ j < n

/-- values that give every basic column the value of its row -/
def Solves (t : Tableau Rat) (x : Int → M) : Prop := ∀ b row, t.get? b = some row → x b = Row.total row x

/-! ## The first tableau -/

theorem solveRow_fold {A : Arithmetic K V} {rs : List (Row K × Int)} (hd : (rs.map (·.2)).Nodup)
    (hs : ∀ r ∈ rs, ∃ c, r.1.get? r.2 = some c ∧ A.isNull c = false) (t : Tableau K)
    (ht : ∀ r ∈ rs, r.2 ∉ t.keys) :
    ∃ t', rs.foldlM (fun t r => do return t.put r.2 (← solveRow A r.1 r.2)) t = .ok t' ∧
      ∀ b row, t'.get? b = some row ↔
        t.get? b = some row ∨ ∃ r ∈ rs, r.2 = b ∧ solveRow A r.1 r.2 = .ok row := by
  induction rs generalizing t with
  | nil => exact ⟨t, rfl, by simp⟩
  | cons r rest ih =>
    obtain ⟨hhead, hrest⟩ := List.nodup_cons.1 hd
    obtain ⟨c, hc, h0⟩ := hs r List.mem_cons_self
    have hok := Row.solveRow_ok hc h0
    set solved := (r.1.remove r.2).mapValues fun d => A.div (A.neg d) c
    have hfresh : ∀ r' ∈ rest, r'.2 ∉ (t.put r.2 solved).keys := by
      intro r' hr' hk
      rcases mem_keys_put.1 hk with h | h
      · exact hhead (List.mem_map.2 ⟨r', hr', h⟩)
      · exact ht r' (List.mem_cons_of_mem _ hr') h
    obtain ⟨t', ht', hspec⟩ := ih hrest (fun r' hr' => hs r' (List.mem_cons_of_mem _ hr')) _ hfresh
    refine ⟨t', ?_, fun b row => ?_⟩
    · rw [List.foldlM_cons, hok]
      exact ht'
    · rw [hspec, get?_put]
      constructor
      · rintro (h | ⟨r', hr', h⟩)
        · split_ifs at h with hb
          · exact Or.inr ⟨r, List.mem_cons_self, hb.symm, by rw [hok, Option.some.inj h]⟩
          · exact Or.inl h
        · exact Or.inr ⟨r', List.mem_cons_of_mem _ hr', h⟩
      · rintro (h | ⟨r', hr', hb, h⟩)
        · have hne : b ≠ r.2 := fun hb => ht r List.mem_cons_self (mem_keys_iff.2 ⟨row, hb ▸ h⟩)
          exact Or.inl (by rw [if_neg hne, h])
        · rcases List.mem_cons.1 hr' with rfl | hr'
          · rw [hok] at h
            exact Or.inl (by rw [if_pos hb.symm, Except.ok.inj h])
          · exact Or.inr ⟨r', hr', hb, h⟩

/-- what the first tableau holds: each row of the problem, solved for its column -/
theorem ofProblem_rows {A : Arithmetic K V} {p : Problem K V} (hp : p.Framed A) :
    ∃ t, ofProblem A p = .ok t ∧
      ∀ b row, t.get? b = some row ↔ ∃ r ∈ p.rows.zip p.basis, r.2 = b ∧ solveRow A r.1 r.2 = .ok row := by
  have hsnd : (p.rows.zip p.basis).map (·.2) = p.basis := List.map_snd_zip hp.paired.ge
  have hd : ((p.rows.zip p.basis).map (·.2)).Nodup := by
    rw [hsnd]
    exact hp.distinct
  obtain ⟨t, ht, hspec⟩ := solveRow_fold hd hp.solvable Keyed.empty (by simp [keys, Keyed.empty])
  exact ⟨t, ht, fun b row => by simp [hspec]⟩

theorem mem_basis_iff {A : Arithmetic K V} {p : Problem K V} (hp : p.Framed A) {b : Int} :
    b ∈ p.basis ↔ ∃ r ∈ p.rows.zip p.basis, r.2 = b := by
  have hsnd : (p.rows.zip p.basis).map (·.2) = p.basis := List.map_snd_zip hp.paired.ge
  rw [← List.mem_map, hsnd]

/-- **The first tableau.** A framed problem has one, it is separate, its columns are those of the problem, and its
basis is the one that comes with the problem. -/
theorem ofProblem_spec {A : Arithmetic K V} {p : Problem K V} (hp : p.Framed A) :
    ∃ t, ofProblem A p = .ok t ∧ Separate t ∧ Within p.width t ∧ ∀ b, b ∈ t.keys ↔ b ∈ p.basis := by
  obtain ⟨t, ht, hspec⟩ := ofProblem_rows hp
  have hkeys : ∀ b, b ∈ t.keys ↔ b ∈ p.basis := by
    intro b
    rw [mem_keys_iff, mem_basis_iff hp]
    constructor
    · rintro ⟨row, hrow⟩
      obtain ⟨r, hr, hb, -⟩ := (hspec b row).1 hrow
      exact ⟨r, hr, hb⟩
    · rintro ⟨r, hr, hb⟩
      obtain ⟨c, hc, h0⟩ := hp.solvable r hr
      exact ⟨_, (hspec b _).2 ⟨r, hr, hb, Row.solveRow_ok hc h0⟩⟩
  have hcols : ∀ b row, t.get? b = some row → ∀ j ∈ row.keys,
      j ≠ b ∧ ∃ r ∈ p.rows.zip p.basis, r.2 = b ∧ j ∈ r.1.keys := by
    intro b row hrow j hj
    obtain ⟨r, hr, hb, hsolve⟩ := (hspec b row).1 hrow
    obtain ⟨c, hc, h0⟩ := hp.solvable r hr
    rw [Row.solveRow_ok hc h0] at hsolve
    cases hsolve
    obtain ⟨hne, hmem⟩ := Row.mem_keys_solveRow.1 hj
    exact ⟨hb ▸ hne, r, hr, hb, hmem⟩
  refine ⟨t, ht, ?_, ⟨?_, ?_⟩, hkeys⟩
  · intro b row hrow j hj hbasic
    obtain ⟨hne, r, hr, hb, hmem⟩ := hcols b row hrow j hj
    exact hne ((hp.alone r hr j ((hkeys j).1 hbasic) hmem).trans hb)
  · intro b hb
    obtain ⟨r, hr, hrb⟩ := (mem_basis_iff hp).1 ((hkeys b).1 hb)
    obtain ⟨c, hc, -⟩ := hp.solvable r hr
    exact hrb ▸ hp.ranged r.1 (List.of_mem_zip hr).1 r.2 (mem_keys_iff.2 ⟨c, hc⟩)
  · intro b row hrow j hj
    obtain ⟨-, r, hr, -, hmem⟩ := hcols b row hrow j hj
    exact hp.ranged r.1 (List.of_mem_zip hr).1 j hmem

theorem length_keys_ofProblem {A : Arithmetic K V} {p : Problem K V} (hp : p.Framed A) {t : Tableau K}
    (ht : ofProblem A p = .ok t) : t.keys.length = p.rows.length := by
  obtain ⟨t', ht', -, -, hkeys⟩ := ofProblem_spec hp
  cases ht.symm.trans ht'
  have hperm : t.keys.Perm p.basis := (List.perm_ext_iff_of_nodup t.nodup_keys hp.distinct).2 hkeys
  rw [hperm.length_eq, hp.paired]

theorem solves_ofProblem_iff {p : Problem Rat Delta} (hp : p.Framed Arithmetic.exact) {t : Tableau Rat}
    (ht : ofProblem Arithmetic.exact p = .ok t) (x : Int → M) : Solves t x ↔ p.Vanishes x := by
  obtain ⟨t', ht', hspec⟩ := ofProblem_rows hp
  cases ht.symm.trans ht'
  constructor
  · intro hx row hrow
    obtain ⟨i, hi, hget⟩ := List.getElem_of_mem hrow
    have hi' : i < p.basis.length := hp.paired ▸ hi
    have hmem : (row, p.basis[i]) ∈ p.rows.zip p.basis :=
      List.mem_iff_getElem.2 ⟨i, by simp [hi, hi'], by simp [hget]⟩
    obtain ⟨c, hc, h0⟩ := hp.solvable _ hmem
    have hc0 : c ≠ 0 := by simpa using h0
    have heq := hx _ _ ((hspec _ _).2 ⟨_, hmem, rfl, Row.solveRow_ok hc h0⟩)
    exact (Row.eq_total_solveRow_iff hc hc0 x).1 heq
  · intro hx b row hrow
    obtain ⟨r, hr, rfl, hsolve⟩ := (hspec b row).1 hrow
    obtain ⟨c, hc, h0⟩ := hp.solvable r hr
    have hc0 : c ≠ 0 := by simpa using h0
    rw [Row.solveRow_ok hc h0] at hsolve
    cases hsolve
    exact (Row.eq_total_solveRow_iff hc hc0 x).2 (hx r.1 (List.of_mem_zip hr).1)

/-! ## Exchanges -/

section Pivot

variable {A : Arithmetic K V} {t t' : Tableau K} {b j : Int} {row : Row K} {a : K}

/-- what an exchange makes of the rows: the row of `b` is turned, and `j` is replaced in the others -/
theorem pivot_rows (hb : t.get? b = some row) (hj : row.get? j = some a) (h0 : A.isNull a = false) :
    ∃ t', pivot A t b j = .ok t' ∧ ∀ k, t'.get? k =
      if k = j then some (turnRow A b a (row.remove j))
      else if k = b then none
      else (t.get? k).map (substitute A j (turnRow A b a (row.remove j))) := by
  refine ⟨((t.remove b).mapValues (substitute A j (turnRow A b a (row.remove j)))).put j
    (turnRow A b a (row.remove j)), ?_, fun k => ?_⟩
  · simp [pivot, hb, hj, h0]
  · rw [get?_put, get?_mapValues, get?_remove]
    split_ifs <;> rfl

variable (hb : t.get? b = some row) (hj : row.get? j = some a) (h0 : A.isNull a = false)
  (hpivot : pivot A t b j = .ok t')

include hb hj h0 hpivot

theorem get?_pivot (k : Int) : t'.get? k =
    if k = j then some (turnRow A b a (row.remove j))
    else if k = b then none
    else (t.get? k).map (substitute A j (turnRow A b a (row.remove j))) := by
  obtain ⟨t'', h, hrows⟩ := pivot_rows hb hj h0
  cases hpivot.symm.trans h
  exact hrows k

/-- the entering column takes the place of the leaving one -/
theorem mem_keys_pivot (k : Int) : k ∈ t'.keys ↔ k = j ∨ (k ≠ b ∧ k ∈ t.keys) := by
  rw [mem_keys_iff, get?_pivot hb hj h0 hpivot k, mem_keys_iff]
  split_ifs with h1 h2
  · simp [h1]
  · have hbj : b ≠ j := fun h => h1 (h2.trans h)
    simp [h2, hbj]
  · cases t.get? k <;> simp [h1, h2]

theorem length_keys_pivot (hs : Separate t) : t'.keys.length = t.keys.length := by
  have hjt : j ∉ t.keys := hs b row hb j (mem_keys_iff.2 ⟨a, hj⟩)
  have hbt : b ∈ t.keys := mem_keys_iff.2 ⟨row, hb⟩
  have hnodup : (j :: t.keys.erase b).Nodup :=
    List.nodup_cons.2 ⟨fun h => hjt (List.mem_of_mem_erase h), t.nodup_keys.erase b⟩
  have hperm : t'.keys.Perm (j :: t.keys.erase b) := by
    refine (List.perm_ext_iff_of_nodup t'.nodup_keys hnodup).2 fun k => ?_
    rw [mem_keys_pivot hb hj h0 hpivot, List.mem_cons, List.Nodup.mem_erase_iff t.nodup_keys]
  have hpos : 0 < t.keys.length := List.length_pos_of_mem hbt
  rw [hperm.length_eq, List.length_cons, List.length_erase_of_mem hbt]
  omega

/-- a column of a changed row is the leaving one, a column of its row other than the entering one, or one that was
there before -/
theorem mem_keys_row_pivot {k i : Int} {row' : Row K} (hk : t'.get? k = some row') (hi : i ∈ row'.keys) :
    i = b ∨ (i ≠ j ∧ (i ∈ row.keys ∨ ∃ old, t.get? k = some old ∧ i ∈ old.keys)) := by
  have hturned : i ∈ (turnRow A b a (row.remove j)).keys → i = b ∨ (i ≠ j ∧ i ∈ row.keys) := by
    intro h
    rcases Row.mem_keys_turnRow.1 h with h | h
    · exact Or.inl h
    · exact Or.inr (mem_keys_remove.1 h)
  rw [get?_pivot hb hj h0 hpivot] at hk
  split_ifs at hk with h1 h2
  · cases hk
    exact (hturned hi).imp id fun h => ⟨h.1, Or.inl h.2⟩
  · obtain ⟨old, hold, rfl⟩ := Option.map_eq_some_iff.1 hk
    rcases Row.mem_keys_substitute hi with h | h
    · exact (hturned h).imp id fun h => ⟨h.1, Or.inl h.2⟩
    · exact Or.inr ⟨h.2, Or.inr ⟨old, hold, h.1⟩⟩

theorem separate_pivot (hs : Separate t) : Separate t' := by
  intro k row' hk i hi hbasic
  have hjb : j ∉ t.keys := hs b row hb j (mem_keys_iff.2 ⟨a, hj⟩)
  have hbt : b ∈ t.keys := mem_keys_iff.2 ⟨row, hb⟩
  rcases mem_keys_row_pivot hb hj h0 hpivot hk hi with rfl | ⟨hij, hold⟩
  · rcases (mem_keys_pivot hb hj h0 hpivot i).1 hbasic with rfl | ⟨hne, -⟩
    · exact hjb hbt
    · exact hne rfl
  · rcases (mem_keys_pivot hb hj h0 hpivot i).1 hbasic with h | ⟨-, hmem⟩
    · exact hij h
    · rcases hold with h | ⟨old, h, hi'⟩
      · exact hs b row hb i h hmem
      · exact hs k old h i hi' hmem

theorem within_pivot {n : Nat} (hw : Within n t) : Within n t' := by
  refine ⟨fun k hk => ?_, fun k row' hk i hi => ?_⟩
  · rcases (mem_keys_pivot hb hj h0 hpivot k).1 hk with rfl | ⟨-, hmem⟩
    · exact hw.row b row hb k (mem_keys_iff.2 ⟨a, hj⟩)
    · exact hw.basic k hmem
  · rcases mem_keys_row_pivot hb hj h0 hpivot hk hi with rfl | ⟨-, h | ⟨old, h, hi'⟩⟩
    · exact hw.basic i (mem_keys_iff.2 ⟨row, hb⟩)
    · exact hw.row b row hb i h
    · exact hw.row k old h i hi'

end Pivot

/-- **Exchanges keep solutions.** Exactly the same values solve a separate tableau before and after an exchange. -/
theorem solves_pivot_iff {t t' : Tableau Rat} {b j : Int} {row : Row Rat} {a : Rat} (hs : Separate t)
    (hb : t.get? b = some row) (hj : row.get? j = some a) (h0 : a ≠ 0)
    (hpivot : pivot Arithmetic.exact t b j = .ok t') (x : Int → M) : Solves t' x ↔ Solves t x := by
  have hnull : Arithmetic.exact.isNull a = false := by simpa using h0
  have hjb : j ∉ t.keys := hs b row hb j (mem_keys_iff.2 ⟨a, hj⟩)
  have hbrow : b ∉ row.keys := fun h => hs b row hb b h (mem_keys_iff.2 ⟨row, hb⟩)
  have hturn := Row.eq_total_turnRow_iff hj h0 hbrow x
  have hrows := get?_pivot hb hj hnull hpivot
  constructor
  · intro hx
    have hxj := hx j _ (by rw [hrows, if_pos rfl])
    intro k old hk
    by_cases hkb : k = b
    · subst hkb
      cases hb.symm.trans hk
      exact hturn.1 hxj
    · have hkj : k ≠ j := fun h => hjb (mem_keys_iff.2 ⟨old, h ▸ hk⟩)
      have hnew := hx k _ (by rw [hrows, if_neg hkj, if_neg hkb, hk]; rfl)
      rw [hnew, Row.total_substitute hxj]
  · intro hx
    have hxj := hturn.2 (hx b row hb)
    intro k row' hk
    rw [hrows] at hk
    split_ifs at hk with h1 h2
    · cases hk
      exact h1 ▸ hxj
    · obtain ⟨old, hold, rfl⟩ := Option.map_eq_some_iff.1 hk
      rw [Row.total_substitute hxj]
      exact hx k old hold

/-! ## Free columns -/

/-- values outside the basis, with those of the basic columns that follow from them -/
def fill (t : Tableau Rat) (y : Int → M) (j : Int) : M :=
  match t.get? j with
  | some row => Row.total row y
  | none => y j

theorem fill_of_nonbasic {t : Tableau Rat} {j : Int} (hj : j ∉ t.keys) (y : Int → M) : t.fill y j = y j := by
  unfold fill
  rw [get?_eq_none_iff.2 hj]

/-- **Free columns.** Any values outside the basis are those of a solution. -/
theorem solves_fill {t : Tableau Rat} (hs : Separate t) (y : Int → M) : Solves t (t.fill y) := by
  intro b row hb
  have hrow : ∀ e ∈ row.entries, t.fill y e.1 = y e.1 := by
    intro e he
    exact fill_of_nonbasic (hs b row hb e.1 (mem_keys_of_mem_entries he)) y
  rw [Row.total_congr hrow]
  unfold fill
  rw [hb]

end Tableau

end Halfspace
