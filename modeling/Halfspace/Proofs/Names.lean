/-
What names mean.

A name may be given to several variables and then means the latest (`index?_eq_some_iff`). Values by name are therefore
values of variables: that of a name goes to the latest variable of the name, and the others of that name go without
(`valuesOf`, `ofList_known`).
-/
import Halfspace.Solver.Answers
import Mathlib.Tactic

namespace Halfspace

namespace Variables

variable {vars : Variables} {name : String} {i : Nat}

/-! ## The latest variable of a name -/

theorem latest_isSome_iff {name : String} {next : Nat} {names : List String} :
    (latest name next names).isSome ↔ name ∈ names := by
  induction names generalizing next with
  | nil => simp [latest]
  | cons n names ih =>
    rw [latest]
    cases hlatest : latest name (next + 1) names with
    | some i =>
      have hmem : name ∈ names := ih.1 (by rw [hlatest]; rfl)
      simp [hmem]
    | none =>
      have hmem : name ∉ names := fun hmem => absurd (ih.2 hmem) (by rw [hlatest]; decide)
      by_cases hn : n = name
      · simp [hn]
      · simp [hn, hmem, Ne.symm hn]

theorem latest_of_nodup {name : String} {next : Nat} {names : List String} (h : names.Nodup) (hmem : name ∈ names) :
    latest name next names = some (next + names.idxOf name) := by
  induction names generalizing next with
  | nil => cases hmem
  | cons n names ih =>
    obtain ⟨hn, hnames⟩ := List.nodup_cons.1 h
    rw [latest]
    by_cases hname : n = name
    · subst hname
      have hnone : latest n (next + 1) names = none := by
        rw [← Option.not_isSome_iff_eq_none, latest_isSome_iff]
        exact hn
      simp [hnone]
    · have hlater : name ∈ names := (List.mem_cons.1 hmem).resolve_left (Ne.symm hname)
      rw [ih hnames hlater, List.idxOf_cons_ne _ hname]
      simp only [Option.some.injEq]
      omega

theorem latest_eq_some_iff {next : Nat} {names : List String} :
    latest name next names = some i ↔ ∃ k, i = next + k ∧ names[k]? = some name ∧ name ∉ names.drop (k + 1) := by
  induction names generalizing i next with
  | nil => simp [latest]
  | cons n rest ih =>
    rw [latest]
    cases hlatest : latest name (next + 1) rest with
    | some j =>
      obtain ⟨m, hj, hm, hlast⟩ := ih.1 hlatest
      constructor
      · intro h
        have hi : j = i := Option.some.inj h
        exact ⟨m + 1, by omega, hm, hlast⟩
      · rintro ⟨k, rfl, hk, hnone⟩
        cases k with
        | zero => exact absurd (List.mem_of_getElem? hm) hnone
        | succ k =>
          have hlater : latest name (next + 1) rest = some (next + 1 + k) := ih.2 ⟨k, rfl, hk, hnone⟩
          have hsame : j = next + 1 + k := Option.some.inj (hlatest.symm.trans hlater)
          exact congrArg some (by omega)
    | none =>
      have hmem : name ∉ rest := fun hmem => absurd (latest_isSome_iff.2 hmem) (by rw [hlatest]; decide)
      constructor
      · intro h
        dsimp only at h
        split_ifs at h with hn
        cases h
        exact ⟨0, rfl, congrArg some hn, hmem⟩
      · rintro ⟨k, rfl, hk, -⟩
        cases k with
        | zero => exact if_pos (Option.some.inj hk)
        | succ k =>
          have hk : rest[k]? = some name := hk
          exact absurd (List.mem_of_getElem? hk) hmem

/-- **Names.** A name means the latest variable that bears it. -/
theorem index?_eq_some_iff :
    vars.index? name = some i ↔ vars.names[i]? = some name ∧ name ∉ vars.names.drop (i + 1) := by
  unfold index?
  rw [latest_eq_some_iff]
  simp

/-! ## Values by name -/

/-- the value that stands under a name; of two the later one counts -/
def valueUnder (values : List (String × Rat)) (name : String) : Option Rat :=
  (values.reverse.find? fun e => e.1 = name).map (·.2)

/-- values of names as values of variables: the latest variable of a name has the value that stands under it; a variable
is zero if a later one has its name, or if there is no value under its name -/
def valuesOf (vars : Variables) (values : List (String × Rat)) : Assignment := fun x =>
  if x < 0 then 0
  else
    match vars.names[x.toNat]? with
    | none => 0
    | some name => if name ∈ vars.names.drop (x.toNat + 1) then 0 else (valueUnder values name).getD 0

def known (vars : Variables) (values : List (String × Rat)) : List (Int × Rat) :=
  values.filterMap fun e => (vars.index? e.1).map fun (x : Nat) => ((x : Int), e.2)

/-- a value is found for a variable under a name that means it -/
theorem find?_known (vars : Variables) (values : List (String × Rat)) (x : Int) :
    ((known vars values).reverse.find? fun p => p.1 = x).map (·.2) =
      (values.reverse.find? fun e => (vars.index? e.1).any fun (i : Nat) => (i : Int) = x).map (·.2) := by
  unfold known
  rw [← List.filterMap_reverse]
  induction values.reverse with
  | nil => rfl
  | cons e rest ih =>
    rw [List.filterMap_cons, List.find?_cons]
    cases hindex : vars.index? e.1 with
    | none => exact ih
    | some i =>
      rw [Option.map_some, List.find?_cons, Option.any_some]
      by_cases hi : (i : Int) = x
      · simp [hi]
      · simpa [hi] using ih

/-- **Values by name** are an assignment. -/
theorem ofList_known (vars : Variables) (values : List (String × Rat)) :
    Assignment.ofList (known vars values) = vars.valuesOf values := by
  funext x
  unfold Assignment.ofList valuesOf
  rw [find?_known]
  have hnone : (∀ n : String, ∀ i : Nat, vars.index? n = some i → (i : Int) ≠ x) →
      (values.reverse.find? fun e => (vars.index? e.1).any fun (i : Nat) => (i : Int) = x) = none := by
    intro hother
    rw [List.find?_eq_none]
    intro e _ hany
    obtain ⟨i, hi, hx⟩ := (Option.any_eq_true _ _).1 hany
    exact hother e.1 i hi (of_decide_eq_true hx)
  split_ifs with hneg
  · rw [hnone fun n i _ => by omega]
    rfl
  obtain ⟨i, rfl⟩ := Int.eq_ofNat_of_zero_le (not_lt.1 hneg)
  rw [Int.toNat_natCast]
  cases hname : vars.names[i]? with
  | none =>
    rw [hnone]
    · rfl
    · rintro n j hj heq
      obtain rfl := Int.ofNat_inj.1 heq
      cases (index?_eq_some_iff.1 hj).1.symm.trans hname
  | some name =>
    dsimp only
    split_ifs with hlater
    · rw [hnone]
      · rfl
      · rintro n j hj heq
        obtain rfl := Int.ofNat_inj.1 heq
        obtain ⟨hbears, hlast⟩ := index?_eq_some_iff.1 hj
        obtain rfl : n = name := Option.some.inj (hbears.symm.trans hname)
        exact hlast hlater
    · have hmeans : ∀ n, ((vars.index? n).any fun (j : Nat) => (j : Int) = (i : Int)) = decide (n = name) := by
        intro n
        rw [Bool.eq_iff_iff, Option.any_eq_true, decide_eq_true_eq]
        constructor
        · rintro ⟨j, hj, heq⟩
          obtain rfl := Int.ofNat_inj.1 (of_decide_eq_true heq)
          exact Option.some.inj ((index?_eq_some_iff.1 hj).1.symm.trans hname)
        · rintro rfl
          exact ⟨i, index?_eq_some_iff.2 ⟨hname, hlater⟩, decide_eq_true rfl⟩
      simp only [hmeans]
      rfl

end Variables

end Halfspace
