/-
The assembled problem means the constraints.

Assembling the exact problem of a reachable state does not fail, and the problem says about columns what the constraints
say about variables (`Represents`). Its columns are the sides in use, in order, and a side with several terms has a row,
solved for its own column. The values of sides under an assignment satisfy all rows, and all values that satisfy the
rows are such; they are within the bounds exactly when the assignment satisfies the constraints, those aside whose
coefficients all cancel.
- `ownRow_of_slack`: the row of a side;
- `within_iff`: bounds of columns and constraints;
- `assemble_represents`: all of it, for every reachable state.
-/
import Halfspace.Proofs.Answers

namespace Halfspace

open Keyed LinearForm

namespace Solver

open Assembly

variable {s : Solver} {a : Assembly Rat Delta} {settings : Settings}

/-! ## What a problem should say -/

def MultiTerm (s : Solver) (i : Nat) : Prop := ∃ side, s.store.sides[i]? = some side ∧ side.isTrivial = false

/-- row `k` is solved for the column of side `i`, which has coefficient minus one there and occurs in no other row -/
def OwnRow (a : Assembly Rat Delta) (i k : Nat) : Prop :=
  ∃ (row : Row Rat) (j : Nat), a.problem.rows[k]? = some row ∧ a.problem.basis[k]? = some (j : Int) ∧
    columnOf? a.sides i = some j ∧ row.get? j = some (-1) ∧
    ∀ k' row', a.problem.rows[k']? = some row' → (j : Int) ∈ row'.keys → k' = k

def columnValue (s : Solver) (a : Assembly Rat Delta) (v : Assignment) (j : Int) : Rat :=
  s.store.valueOf v a.sides[j.toNat]?

/-- an assembled problem says about columns what the constraints say about variables -/
structure Represents (s : Solver) (a : Assembly Rat Delta) : Prop where
  width : a.problem.width = a.sides.length
  stored : ∀ i ∈ a.sides, i < s.store.size
  increasing : a.sides.Pairwise (· < ·)
  column_iff : ∀ i j : Nat, columnOf? a.sides i = some j ↔ a.sides[j]? = some i
  /-- a side with a bound has a column -/
  column_of_bounded : ∀ i interval, s.intervals[i]? = some interval → interval ≠ Interval.whole →
    ∃ j, columnOf? a.sides i = some j
  paired : a.problem.rows.length = a.problem.basis.length
  row_of_side : ∀ i, MultiTerm s i → ∃! k, OwnRow a i k
  side_of_row : ∀ k, k < a.problem.rows.length → ∃! i, MultiTerm s i ∧ OwnRow a i k
  /-- the values of sides satisfy the rows -/
  sound : ∀ v, a.problem.Vanishes (s.columnValue a v)
  /-- values that satisfy the rows are those of sides -/
  complete : ∀ x : Int → Rat, a.problem.Vanishes x →
    ∃ v, ∀ j : Int, 0 ≤ j ∧ j < a.problem.width → x j = s.columnValue a v j
  /-- they are within the bounds when the constraints hold whose coefficients do not all cancel -/
  within_iff : ∀ v, (∀ j : Int, 0 ≤ j ∧ j < a.problem.width →
      (a.problem.span j).Contains (.ofRat (s.columnValue a v j))) ↔
    ∀ c ∈ s.constraints, c.terms.collect ≠ [] → c.holds v = true

/-! ## Columns -/

theorem pairwise_usedSides {store : FormStore} {vars : Variables} : (usedSides store vars).Pairwise (· < ·) :=
  List.pairwise_lt_range.filter _

theorem used_of_multiTerm {i : Nat} (h : MultiTerm s i) : i ∈ usedSides s.store s.vars := by
  obtain ⟨side, hside, htrivial⟩ := h
  rw [mem_usedSides, List.getD_eq_getElem?_getD, hside, Option.getD_some]
  refine ⟨(List.getElem?_eq_some_iff.1 hside).1, ?_⟩
  unfold isUsed soleVar?
  split
  · rename_i hsole
    split at hsole
    · simp [isTrivial] at htrivial
    · cases hsole
  · rfl

/-- an end of an interval comes from a constraint on the side -/
theorem Registered.used_of_bounded (h : Registered s) {i : Nat} {interval : Interval}
    (hi : s.intervals[i]? = some interval) (hbounded : interval ≠ Interval.whole) :
    i ∈ usedSides s.store s.vars := by
  obtain ⟨-, rfl⟩ := h.eq_ofSide hi
  by_contra hunused
  have hnone : (s.restated.filter fun r => r.side = some i) = [] := by
    refine List.filter_eq_nil_iff.2 fun r hr hr' => hunused ?_
    exact h.used_of_confined hr (by simpa using hr')
  apply hbounded
  rw [Interval.ofSide, hnone]
  rfl

/-! ## Rows -/

/-- **Own rows.** The row of a side with several terms is solved for the column of the side. -/
theorem Assembled.ownRow_of_slack (ha : Assembled s a) (h : Registered s) {e : Nat × LinearForm} {i k : Nat}
    (hk : (slacks s.store a.sides)[k]? = some e) (hi : a.sides[e.1]? = some i) : OwnRow a i k := by
  have hnodup : a.sides.Nodup := ha.sides ▸ nodup_usedSides
  refine ⟨exactRow s.store a.sides e.2 e.1, e.1, ?_, ?_, (columnOf?_eq_some_iff hnodup).2 hi, ?_, ?_⟩
  · rw [ha.rows, List.getElem?_map, hk]
    rfl
  · rw [ha.basis, List.getElem?_map, hk]
    rfl
  · simp [exactRow]
  · intro k' row' hrow' hmem
    rw [ha.rows, List.getElem?_map] at hrow'
    obtain ⟨e', hk', rfl⟩ := Option.map_eq_some_iff.1 hrow'
    have he : e ∈ slacks s.store (usedSides s.store s.vars) := ha.sides ▸ List.mem_of_getElem? hk
    have he' : e' ∈ slacks s.store (usedSides s.store s.vars) := ha.sides ▸ List.mem_of_getElem? hk'
    have hsame : e'.1 = e.1 := by
      rcases mem_keys_exactRow.1 hmem with heq | ⟨t, ht, heq⟩
      · exact (Int.ofNat_inj.1 heq).symm
      · -- the other columns of a row are those of variables
        rw [ha.sides] at heq
        exact absurd (Int.ofNat_inj.1 heq).symm (((h.slack_spec he').2.2 t ht).2.2 e he)
    have hlt : k' < ((slacks s.store a.sides).map (·.1)).length := by
      rw [List.length_map]
      exact (List.getElem?_eq_some_iff.1 hk').1
    refine (List.getElem?_inj hlt nodup_slacks).1 ?_
    rw [List.getElem?_map, List.getElem?_map, hk, hk', Option.map_some, Option.map_some, hsame]

theorem Assembled.row_of_side (ha : Assembled s a) (h : Registered s) {i : Nat} (hi : MultiTerm s i) :
    ∃! k, OwnRow a i k := by
  obtain ⟨j, hj⟩ := List.mem_iff_getElem?.1 (used_of_multiTerm hi)
  rw [← ha.sides] at hj
  obtain ⟨side, hside, htrivial⟩ := hi
  have hslack : (j, side) ∈ slacks s.store a.sides :=
    mem_slacks.2 ⟨i, hj, by simp [List.getD_eq_getElem?_getD, hside], htrivial⟩
  obtain ⟨k, hk⟩ := List.mem_iff_getElem?.1 hslack
  have hown : OwnRow a i k := ha.ownRow_of_slack h hk hj
  refine ⟨k, hown, fun k' hown' => ?_⟩
  obtain ⟨row, c, -, -, hc, -, halone⟩ := hown
  obtain ⟨row', c', hrow', -, hc', hcoef', -⟩ := hown'
  cases hc.symm.trans hc'
  exact halone k' row' hrow' (mem_keys_iff.2 ⟨-1, hcoef'⟩)

theorem Assembled.side_of_row (ha : Assembled s a) (h : Registered s) {k : Nat} (hk : k < a.problem.rows.length) :
    ∃! i, MultiTerm s i ∧ OwnRow a i k := by
  have hnodup : a.sides.Nodup := ha.sides ▸ nodup_usedSides
  have hlt : k < (slacks s.store a.sides).length := by simpa [ha.rows] using hk
  have hslack := List.getElem?_eq_getElem hlt
  obtain ⟨i, hi, hform, htrivial⟩ := mem_slacks.1 (List.mem_of_getElem? hslack)
  have hstored : i < s.store.size := (mem_usedSides.1 (ha.sides ▸ List.mem_of_getElem? hi)).1
  have hown : OwnRow a i k := ha.ownRow_of_slack h hslack hi
  refine ⟨i, ⟨⟨_, FormStore.getElem?_eq_getD hstored, hform ▸ htrivial⟩, hown⟩, ?_⟩
  rintro i' ⟨-, hown'⟩
  obtain ⟨-, c, -, hbasis, hc, -⟩ := hown
  obtain ⟨-, c', -, hbasis', hc', -⟩ := hown'
  have hsame : c = c' := Int.ofNat_inj.1 (Option.some.inj (hbasis.symm.trans hbasis'))
  rw [columnOf?_eq_some_iff hnodup] at hc hc'
  rw [hsame, hc'] at hc
  exact Option.some.inj hc

/-! ## Values and bounds -/

theorem Assembled.columnValue_eq (ha : Assembled s a) {x : Int → Rat} (hx : a.problem.Vanishes x) {j : Int}
    (hj : 0 ≤ j ∧ j < a.problem.width) : x j = s.columnValue a (Assembly.assignmentOf s.store a.sides x) j := by
  obtain ⟨i, hi⟩ := ha.exists_side hj
  have hcolumn := (ha.vanishes_iff x).1 hx _ _ hi
  rw [Int.toNat_of_nonneg hj.1] at hcolumn
  rw [columnValue, hi]
  exact hcolumn

/-- **Bounds.** The values of sides are within the bounds of their columns exactly when all constraints hold whose
coefficients do not all cancel. -/
theorem Assembled.within_iff (ha : Assembled s a) (h : Registered s) (v : Assignment) :
    (∀ j : Int, 0 ≤ j ∧ j < a.problem.width → (a.problem.span j).Contains (.ofRat (s.columnValue a v j))) ↔
      ∀ c ∈ s.constraints, c.terms.collect ≠ [] → c.holds v = true := by
  have hcontains : ∀ j i : Nat, a.sides[j]? = some i →
      ((a.problem.span j).Contains (.ofRat (s.columnValue a v j)) ↔
        ∀ r ∈ s.restated, r.side = some i → r.holds (s.store.valueOf v (some i)) = true) := by
    intro j i hi
    rw [ha.span j i hi, Interval.contains_span_iff, Interval.contains_ofSide_iff, columnValue, Int.toNat_natCast, hi]
  constructor
  · intro hin c hc hsurvives
    obtain ⟨k, hk⟩ := List.mem_iff_getElem?.1 hc
    obtain ⟨r, hr, -, hrestates⟩ := h.exists_restated hk
    have hmem := List.mem_of_getElem? hr
    obtain ⟨i, hside⟩ := hrestates.exists_side h.normal hsurvives
    obtain ⟨j, hj⟩ := List.mem_iff_getElem?.1 (h.used_of_confined hmem hside)
    rw [← ha.sides] at hj
    have hlt : j < a.problem.width := ha.width ▸ (List.getElem?_eq_some_iff.1 hj).1
    rw [hrestates.holds_iff, hside]
    exact (hcontains j i hj).1 (hin j (by omega)) r hmem hside
  · intro hall j hj
    obtain ⟨i, hi⟩ := ha.exists_side hj
    have hcolumn := hcontains j.toNat i hi
    rw [Int.toNat_of_nonneg hj.1] at hcolumn
    refine hcolumn.2 fun r hr hside => ?_
    obtain ⟨k, c, hc, -, -, hrestates⟩ := h.exists_constraint hr
    have hsurvives : c.terms.collect ≠ [] := by
      intro hcancels
      rw [(hrestates.side_eq_none_iff h.normal).2 hcancels] at hside
      cases hside
    rw [← hside, ← hrestates.holds_iff]
    exact hall c (List.mem_of_getElem? hc) hsurvives

/-! ## The whole problem -/

theorem Assembled.represents (ha : Assembled s a) (h : Registered s) : Represents s a where
  width := ha.width
  stored i hi := (mem_usedSides.1 (ha.sides ▸ hi)).1
  increasing := ha.sides ▸ pairwise_usedSides
  column_iff i j := columnOf?_eq_some_iff (ha.sides ▸ nodup_usedSides)
  column_of_bounded i interval hi hbounded := by
    obtain ⟨j, hj⟩ := List.mem_iff_getElem?.1 (h.used_of_bounded hi hbounded)
    exact ⟨j, (columnOf?_eq_some_iff (ha.sides ▸ nodup_usedSides)).2 (ha.sides ▸ hj)⟩
  paired := ha.framed.paired
  row_of_side i := ha.row_of_side h
  side_of_row k := ha.side_of_row h
  sound := ha.vanishes_of_assignment h
  complete x hx := ⟨_, fun j => ha.columnValue_eq hx⟩
  within_iff := ha.within_iff h

/-- **Refinement.** A reachable state can be assembled, and the problem represents its constraints. -/
theorem assemble_represents (h : Reachable settings s) :
    ∃ a, s.assemble Arithmetic.exact = .ok a ∧ Represents s a := by
  have hregistered := (Rightful.of_reachable h).registered
  obtain ⟨a, hassemble, ha⟩ := assemble_spec hregistered
  exact ⟨a, hassemble, ha.represents hregistered⟩

/-- `x + y ≤ 4`, then `-2x - 2y < -1`, `3y ≥ 1` and the false `x - x > 1`; nothing is said about `z` -/
def layered : List Call :=
  [.addVar "x", .addVar "y", .addVar "z", .addConstraint [(.number 1, .id 0), (.number 1, .id 1)] "<=" (.number 4),
    .addConstraint [(.number (-2), .id 0), (.number (-2), .id 1)] "<" (.number (-1)),
    .addConstraint [(.number 3, .id 1)] ">=" (.number 1),
    .addConstraint [(.number 1, .id 0), (.number (-1), .id 0)] ">" (.number 1), .solve fun _ => .ok {}]

/-- variable `z` and the constraint that cancels leave no trace; both constraints on multiples of `x + y` share a column
and a row -/
theorem layered_is_represented : ∃ a, ((new {}).runCalls layered).assemble Arithmetic.exact = .ok a ∧
    a.sides = [0, 1, 3] ∧ a.problem.basis = [2] ∧ Represents ((new {}).runCalls layered) a := by
  obtain ⟨a, hassemble, hrepresents⟩ := assemble_represents (reachable_runCalls {} layered)
  have hparts : (((new {}).runCalls layered).assemble Arithmetic.exact).map (fun a => (a.sides, a.problem.basis)) =
      .ok ([0, 1, 3], [2]) := by decide +kernel
  rw [hassemble] at hparts
  obtain ⟨hsides, hbasis⟩ := Prod.mk.inj (Except.ok.inj hparts)
  exact ⟨a, hassemble, hsides, hbasis, hrepresents⟩

end Solver

end Halfspace
