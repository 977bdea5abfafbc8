/-
Runs of the exact engine.

A run starts from the first tableau of a framed problem, with the proposed values of the columns outside the basis
where they respect the bounds, and then follows a `Path`: exchanges one after another, each named by the column that
leaves and the column that enters.
- `initial_spec`, `settled_of_start`: the first state exists, is sound, and is settled;
- `Path.sound`, `Path.settled`, `Path.length_keys`: what exchanges keep, paths keep;
- `Path.nonbasic_frame`, `Path.basic_frame`: a column outside the basis that never enters keeps its value, a basic
  column that never leaves stays basic;
- `Path.crossed_frame`: a column that stands on a crossed bound never enters;
- `iterate_cases`, `run_cases`: a run does not fail. It ends after a path, feasible, at a stuck column, or because the
  path is as long as the limit.
-/
import Halfspace.Proofs.Engine.Step
import Halfspace.Proofs.Fallible

namespace Halfspace

open Keyed

theorem Problem.within_iff {p : Problem Rat Delta} {j : Int} {v : Delta} :
    p.within Arithmetic.exact j v = true ↔ (p.span j).Contains v := by
  unfold Problem.within Span.Contains
  cases (p.span j).low <;> cases (p.span j).upper <;> simp

namespace Simplex

variable {p : Problem Rat Delta} {s s' s'' : State Rat Delta}

/-! ## The start -/

theorem settles_restingValue (p : Problem Rat Delta) (j : Int) :
    (p.span j).Settles (p.restingValue Arithmetic.exact j) := by
  unfold Problem.restingValue
  cases hl : (p.span j).low with
  | some l => exact Or.inr (Or.inl hl)
  | none =>
    cases hu : (p.span j).upper with
    | some u => exact Or.inr (Or.inr hu)
    | none => exact Or.inl ⟨by simp [hl], by simp [hu]⟩

/-- a proposed value is taken only within the bounds -/
theorem settles_startValue (p : Problem Rat Delta) (start : Keyed Delta) (j : Int) :
    (p.span j).Settles (startValue Arithmetic.exact p start j) := by
  unfold startValue
  split
  · split_ifs with h
    · exact Or.inl (Problem.within_iff.1 h)
    · exact settles_restingValue p j
  · exact settles_restingValue p j

/-- **The first state.** It exists for a framed problem, whatever values are proposed, and is sound. -/
theorem initial_spec (hp : p.Framed Arithmetic.exact) (start : Keyed Delta) :
    ∃ s, initial Arithmetic.exact p start = .ok s ∧ Sound p s ∧
      ∀ j : Int, 0 ≤ j ∧ j < p.width → j ∉ s.tableau.keys → s.at j = startValue Arithmetic.exact p start j := by
  obtain ⟨t, ht, hsep, hwithin, -⟩ := Tableau.ofProblem_spec hp
  set outside : List Delta := (List.range p.width).map fun (j : Nat) =>
    if t.contains j then Arithmetic.exact.zero else startValue Arithmetic.exact p start j with houtside
  have hlen : outside.length = p.width := by simp [houtside]
  have hrow : ∀ e ∈ t.entries, t.get? e.1 = some e.2 := fun e he => get?_eq_some_iff.2 he
  obtain ⟨values, hvalues, hvlen, hsolves, hkeep⟩ := foldlM_assign_spec t.keys p.width t.distinct
    (fun e he => mem_keys_of_mem_entries he) (fun e he => hwithin.basic e.1 (mem_keys_of_mem_entries he))
    (fun e he j hj => ⟨hsep e.1 e.2 (hrow e he) j hj, hwithin.row e.1 e.2 (hrow e he) j hj⟩) hlen
  refine ⟨⟨t, values⟩, ?_, ⟨hvlen, hwithin, hsep, fun b row hb => ?_, fun M _ _ x => ?_⟩, fun j hj hjn => ?_⟩
  · have hinitial : initialValues Arithmetic.exact p t start = .ok values := hvalues
    unfold initial
    rw [ht]
    simp only [bind, Except.bind, hinitial]
    rfl
  · exact hsolves (b, row) (get?_eq_some_iff.1 hb)
  · exact Tableau.solves_ofProblem_iff hp ht x
  · have hcontains : t.contains j = false := by
      have := mt contains_iff.1 hjn
      simpa using this
    have hin : 0 ≤ j ∧ j < outside.length := by rwa [hlen]
    have hlt : j.toNat < p.width := by omega
    have hcast : (j.toNat : Int) = j := Int.toNat_of_nonneg hj.1
    show look Arithmetic.exact values j = _
    rw [hkeep j hj hjn, look, fetch?_of_within hin]
    simp [houtside, hlt, hcast, hcontains]

theorem tableau_initial {start : Keyed Delta} (hs : initial Arithmetic.exact p start = .ok s) :
    Tableau.ofProblem Arithmetic.exact p = .ok s.tableau := by
  obtain ⟨t, ht, hrest⟩ := bind_eq_ok_iff.1 hs
  obtain ⟨values, -, hok⟩ := bind_eq_ok_iff.1 hrest
  cases hok
  exact ht

theorem length_keys_initial (hp : p.Framed Arithmetic.exact) {start : Keyed Delta}
    (hs : initial Arithmetic.exact p start = .ok s) : s.tableau.keys.length = p.rows.length :=
  Tableau.length_keys_ofProblem hp (tableau_initial hs)

theorem mem_keys_initial (hp : p.Framed Arithmetic.exact) {start : Keyed Delta}
    (hs : initial Arithmetic.exact p start = .ok s) (b : Int) : b ∈ s.tableau.keys ↔ b ∈ p.basis := by
  obtain ⟨t, ht, -, -, hkeys⟩ := Tableau.ofProblem_spec hp
  cases (tableau_initial hs).symm.trans ht
  exact hkeys b

theorem settled_of_start {start : Keyed Delta}
    (h : ∀ j : Int, 0 ≤ j ∧ j < p.width → j ∉ s.tableau.keys → s.at j = startValue Arithmetic.exact p start j) :
    Settled p s := by
  intro j hj hjn
  rw [h j hj hjn]
  exact settles_startValue p start j

/-! ## Paths -/

/-- exchanges one after another, with the column that leaves and the column that enters in each -/
inductive Path (p : Problem Rat Delta) : State Rat Delta → List (Int × Int) → State Rat Delta → Prop where
  | nil (s : State Rat Delta) : Path p s [] s
  | cons {s s' s'' : State Rat Delta} {b j : Int} {side : Breach} {row : Row Rat} {a : Rat} {es : List (Int × Int)}
      (moves : Moves p s b j side row a)
      (exchange : exchange Arithmetic.exact s b j a (target Arithmetic.exact p b side) = .ok s')
      (rest : Path p s' es s'') : Path p s ((b, j) :: es) s''

namespace Path

variable {es fs : List (Int × Int)}

theorem sound (hpath : Path p s es s') (h : Sound p s) : Sound p s' := by
  induction hpath with
  | nil => exact h
  | cons m hex _ ih => exact ih (sound_exchange h m hex)

theorem length_keys (hpath : Path p s es s') (h : Sound p s) :
    s'.tableau.keys.length = s.tableau.keys.length := by
  induction hpath with
  | nil => rfl
  | cons m hex _ ih => rw [ih (sound_exchange h m hex), length_keys_exchange m hex h.separate]

theorem settled (hpath : Path p s es s') (h : Sound p s) (hs : Settled p s) : Settled p s' := by
  induction hpath with
  | nil => exact hs
  | cons m hex _ ih => exact ih (sound_exchange h m hex) (settled_exchange h m hex hs)

theorem split (hpath : Path p s (es ++ fs) s'') : ∃ s', Path p s es s' ∧ Path p s' fs s'' := by
  induction es generalizing s with
  | nil => exact ⟨s, .nil s, hpath⟩
  | cons e es ih =>
    cases hpath with
    | cons m hex rest =>
      obtain ⟨t, h1, h2⟩ := ih rest
      exact ⟨t, .cons m hex h1, h2⟩

theorem in_range (hpath : Path p s es s') (h : Sound p s) :
    ∀ e ∈ es, (0 ≤ e.1 ∧ e.1 < p.width) ∧ 0 ≤ e.2 ∧ e.2 < p.width := by
  induction hpath with
  | nil => simp
  | cons m hex _ ih =>
    intro e he
    rcases List.mem_cons.1 he with rfl | he
    · exact ⟨h.within.basic _ m.basic, m.in_range h⟩
    · exact ih (sound_exchange h m hex) e he

/-- a column outside the basis that never enters never leaves either, and keeps its value -/
theorem nonbasic_frame (hpath : Path p s es s') (h : Sound p s) {k : Int} (hk : k ∉ s.tableau.keys)
    (hin : 0 ≤ k ∧ k < p.width) (hne : ∀ e ∈ es, e.2 ≠ k) :
    k ∉ s'.tableau.keys ∧ s'.at k = s.at k ∧ ∀ e ∈ es, e.1 ≠ k := by
  induction hpath with
  | nil => exact ⟨hk, rfl, by simp⟩
  | cons m hex _ ih =>
    have hkj := (hne _ List.mem_cons_self).symm
    have hkb : k ≠ _ := fun hkb => hk (hkb ▸ m.basic)
    have hk' := mt (mem_keys_exchange m hex k).1 (not_or.2 ⟨hkj, fun hmem => hk hmem.2⟩)
    obtain ⟨h1, h2, h3⟩ := ih (sound_exchange h m hex) hk' fun e he => hne e (List.mem_cons_of_mem _ he)
    rw [value_exchange_nonbasic h m hex hin hk, if_neg hkj, add_zero] at h2
    refine ⟨h1, h2, fun e he => ?_⟩
    rcases List.mem_cons.1 he with rfl | he
    · exact hkb.symm
    · exact h3 e he

/-- a basic column that never leaves stays basic and never enters -/
theorem basic_frame (hpath : Path p s es s') (h : Sound p s) {k : Int} (hk : k ∈ s.tableau.keys)
    (hne : ∀ e ∈ es, e.1 ≠ k) : k ∈ s'.tableau.keys ∧ ∀ e ∈ es, e.2 ≠ k := by
  induction hpath with
  | nil => exact ⟨hk, by simp⟩
  | @cons s _ _ b j _ _ _ _ m hex _ ih =>
    have hkb := (hne _ List.mem_cons_self).symm
    have hk' := (mem_keys_exchange m hex k).2 (Or.inr ⟨hkb, hk⟩)
    obtain ⟨h1, h2⟩ := ih (sound_exchange h m hex) hk' fun e he => hne e (List.mem_cons_of_mem _ he)
    refine ⟨h1, fun e he => ?_⟩
    rcases List.mem_cons.1 he with rfl | he
    · intro (hj : j = k)
      exact m.nonbasic h (hj ▸ hk)
    · exact h2 e he

/-- a column outside the basis that stands on a crossed bound stays there -/
theorem crossed_frame (hpath : Path p s es s') (h : Sound p s) {k : Int} (hk : k ∉ s.tableau.keys)
    (hin : 0 ≤ k ∧ k < p.width) (hsettles : (p.span k).Settles (s.at k)) (hout : ¬(p.span k).Contains (s.at k)) :
    k ∉ s'.tableau.keys ∧ s'.at k = s.at k := by
  induction hpath with
  | nil => exact ⟨hk, rfl⟩
  | @cons s _ _ b j side row a _ m hex _ ih =>
    have hkj : k ≠ j := by
      rintro rfl
      exact not_canRepair_of_crossed hsettles hout m.repairs
    have hk' := mt (mem_keys_exchange m hex k).1 (not_or.2 ⟨hkj, fun hmem => hk hmem.2⟩)
    have hvalue := value_exchange_nonbasic h m hex hin hk
    rw [if_neg hkj, add_zero] at hvalue
    obtain ⟨h1, h2⟩ := ih (sound_exchange h m hex) hk' (hvalue.symm ▸ hsettles) (hvalue.symm ▸ hout)
    exact ⟨h1, h2.trans hvalue⟩

end Path

/-! ## Runs -/

/-- how a run may end after a path of exchanges to `s` -/
inductive Ending (p : Problem Rat Delta) (s : State Rat Delta) (made : Int) : Run Rat Delta → Prop where
  | feasible (inside : ∀ k ∈ s.tableau.keys, (p.span k).Contains (s.at k)) :
      Ending p s made (s.stop .feasible made)
  | infeasible {b : Int} {side : Breach} {row : Row Rat} (stuck : Stuck p s b side row) :
      Ending p s made
        { s.stop .infeasible made with
          conflict := some (conflictRow Arithmetic.exact row b side)
          direction := side.direction }

/-- a run from a sound state follows a path, to an ending or as far as the limit goes -/
theorem iterate_cases (h : Sound p s) (limit : Int) (remaining made : Nat) :
    ∃ es s' r, iterate Arithmetic.exact p limit remaining made s = .ok r ∧ Path p s es s' ∧
      ((es.length < remaining ∧ Ending p s' (made + es.length) r) ∨
        (es.length = remaining ∧ r = s'.stop .iterationLimit limit)) := by
  induction remaining generalizing s made with
  | zero => exact ⟨[], s, _, rfl, .nil s, Or.inr ⟨rfl, rfl⟩⟩
  | succ remaining ih =>
    rcases step_cases h with ⟨hstep, hin⟩ | ⟨b, side, row, hstep, hstuck⟩ | ⟨b, j, side, row, a, s', hstep, m, hex⟩
    · refine ⟨[], s, s.stop .feasible made, ?_, .nil s, Or.inl ⟨Nat.succ_pos _, ?_⟩⟩
      · rw [iterate, hstep]
        rfl
      · simpa using Ending.feasible hin
    · refine ⟨[], s, { s.stop .infeasible made with
          conflict := some (conflictRow Arithmetic.exact row b side)
          direction := side.direction }, ?_, .nil s, Or.inl ⟨Nat.succ_pos _, ?_⟩⟩
      · rw [iterate, hstep]
        rfl
      · simpa using Ending.infeasible hstuck
    · obtain ⟨es, t, r, hr, hpath, hend⟩ := ih (sound_exchange h m hex) (made + 1)
      refine ⟨(b, j) :: es, t, r, ?_, .cons m hex hpath, ?_⟩
      · rw [iterate, hstep]
        exact hr
      · have hcount : ((made + 1 : Nat) : Int) + es.length = made + ((b, j) :: es).length := by
          push_cast [List.length_cons]
          ring
        rw [hcount] at hend
        rcases hend with ⟨hlt, hend⟩ | ⟨heq, hend⟩
        · exact Or.inl ⟨Nat.succ_lt_succ hlt, hend⟩
        · exact Or.inr ⟨congrArg Nat.succ heq, hend⟩

/-- **Runs.** A run on a framed problem does not fail, whatever start is proposed. It follows a path from its first state,
to an ending or as far as the limit goes. -/
theorem run_path (hp : p.Framed Arithmetic.exact) (start : Keyed Delta) (limit : Int) :
    ∃ s es s' r, initial Arithmetic.exact p start = .ok s ∧ Simplex.run Arithmetic.exact p start limit = .ok r ∧
      Path p s es s' ∧
      ((es.length < limit.toNat ∧ Ending p s' es.length r) ∨
        (es.length = limit.toNat ∧ r = s'.stop .iterationLimit limit)) := by
  obtain ⟨s, hs, hsound, -⟩ := initial_spec hp start
  obtain ⟨es, s', r, hr, hpath, hend⟩ := iterate_cases hsound limit limit.toNat 0
  refine ⟨s, es, s', r, hs, ?_, hpath, by simpa using hend⟩
  unfold Simplex.run
  rw [hs]
  exact hr

/-- the first state of a run is sound and settled -/
theorem run_cases (hp : p.Framed Arithmetic.exact) (start : Keyed Delta) (limit : Int) :
    ∃ s es s' r, Simplex.run Arithmetic.exact p start limit = .ok r ∧ Sound p s ∧ Settled p s ∧
      s.tableau.keys.length = p.rows.length ∧ Path p s es s' ∧
      ((es.length < limit.toNat ∧ Ending p s' es.length r) ∨
        (es.length = limit.toNat ∧ r = s'.stop .iterationLimit limit)) := by
  obtain ⟨s, es, s', r, hs, hr, hpath, hend⟩ := run_path hp start limit
  obtain ⟨first, hfirst, hsound, hstart⟩ := initial_spec hp start
  cases hs.symm.trans hfirst
  exact ⟨s, es, s', r, hr, hsound, settled_of_start hstart, length_keys_initial hp hs, hpath, hend⟩

end Simplex

end Halfspace
