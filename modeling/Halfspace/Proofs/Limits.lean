/-
Limits that suffice.

The engine decides every framed problem within `3 ^ n` exchanges for the number `n` of its columns, whatever values it
starts from. The problem of a state has at most one column for each left side, and a call adds at most one left side, so
that after `n` calls a limit above `3 ^ n` is never reached, nor is it by exact passes asked for directly. Solving then is
undecided in no case, failures of the first pass aside. An answer that is known is kept, be the limit what it may; the
limit must have been high enough when it was found (`Decisive`).
- `solveOn_decides`, `solveBy_decides`: one answer, with a limit above `3 ^ n` for the number `n` of sides;
- `decisive_runActions`: any calls and exact passes under one limit;
- `limits_suffice`: for every problem and for every history there is a limit.
-/
import Halfspace.Proofs.Answers

namespace Halfspace

namespace Solver

variable {s s' : Solver} {settings : Settings}

/-! ## Decisions -/

/-- an answer that is known is one -/
def Decisive (s : Solver) : Prop := s.solved = true → s.verdict ≠ .unknown

theorem Concludes.decided (h : Concludes s s') (hlimit : 3 ^ s.store.size ≤ s.settings.pivotLimit) :
    s'.verdict ≠ .unknown := by
  cases h with
  | satisfiable => exact nofun
  | unsatisfiable => exact nofun
  | undecided low => exact absurd low (not_lt.2 hlimit)

/-- **Exact passes decide**, if the limit is high. -/
theorem solveOn_decides (hs : Registered s) (hlimit : 3 ^ s.store.size ≤ s.settings.pivotLimit) (resting : Resting) :
    (s.solveOn resting).fault = none ∧ (s.solveOn resting).solver.verdict ≠ .unknown := by
  obtain ⟨hfault, hconcludes⟩ := solveOn_concludes hs resting
  exact ⟨hfault, hconcludes.decided hlimit⟩

/-- solving fails with its first pass, or leaves a verdict -/
def Decides (s : Solver) (pass : Pass) : Prop :=
  (∃ f, pass s = .error f ∧ (s.solveBy pass).fault = some f ∧ (s.solveBy pass).solver = s) ∨
    ((s.solveBy pass).fault = none ∧ (s.solveBy pass).solver.verdict ≠ .unknown)

/-- **Solving decides**, if the limit is high. -/
theorem solveBy_decides (hs : Registered s) (h : Decisive s) (hlimit : 3 ^ s.store.size ≤ s.settings.pivotLimit)
    (pass : Pass) : s.Decides pass := by
  rcases solveBy_cases hs pass with ⟨hsolved, hsame⟩ | hfails | ⟨hfault, s', hconcludes, -, hsolver⟩
  · unfold Decides
    rw [hsame]
    exact Or.inr ⟨rfl, h hsolved⟩
  · exact Or.inl hfails
  · unfold Decides
    rw [hsolver]
    exact Or.inr ⟨hfault, hconcludes.decided hlimit⟩

theorem decisive_follows (hs : Registered s) (h : Decisive s) (hlimit : 3 ^ s.store.size ≤ s.settings.pivotLimit)
    (hs' : Follows s s') : Decisive s' := by
  cases hs' with
  | same => exact h
  | addVar name => exact h
  | addConstraint accepted =>
    obtain ⟨s'', rfl⟩ := addConstraint_eq_forget accepted
    exact nofun
  | solve pass =>
    rcases solveBy_decides hs h hlimit pass with ⟨_, -, -, hsame⟩ | ⟨-, hverdict⟩
    · rw [hsame]
      exact h
    · exact fun _ => hverdict
  | counted pivots => exact h
  | tellModel told =>
    obtain ⟨-, -, rfl⟩ := tellModel_ok told
    exact h

theorem decisive_perform (hs : Registered s) (h : Decisive s) (hlimit : 3 ^ s.store.size ≤ s.settings.pivotLimit)
    (a : Action) : Decisive (s.perform a) := by
  cases a with
  | call c => exact decisive_follows hs h hlimit (follows_after s c)
  | exactPass resting => exact fun _ => (solveOn_decides hs hlimit resting).2

/-! ## Histories -/

theorem registered_runActions (settings : Settings) (actions : List Action) :
    Registered ((new settings).runActions actions) :=
  (Rightful.of_reachable (reachable_iff.2 ⟨actions, rfl⟩)).registered

/-- **Any calls and exact passes.** With a high limit every answer that is known is one. -/
theorem decisive_runActions (actions : List Action) (hlimit : 3 ^ actions.length ≤ settings.pivotLimit) :
    ((new settings).runActions actions).settings = settings ∧
      ((new settings).runActions actions).store.size ≤ actions.length ∧
      Decisive ((new settings).runActions actions) := by
  induction actions using List.reverseRecOn with
  | nil => exact ⟨rfl, le_rfl, nofun⟩
  | append_singleton actions a ih =>
    rw [List.length_append, List.length_singleton] at hlimit ⊢
    have hless : 3 ^ actions.length ≤ 3 ^ (actions.length + 1) := Nat.pow_le_pow_right (by norm_num) (Nat.le_succ _)
    obtain ⟨hsettings, hsize, hdecisive⟩ := ih (hless.trans hlimit)
    have hregistered := registered_runActions settings actions
    obtain ⟨hkept, hgrows⟩ := perform_frame hregistered a
    rw [runActions_concat]
    refine ⟨hkept.trans hsettings, by omega, decisive_perform hregistered hdecisive ?_ a⟩
    calc 3 ^ ((new settings).runActions actions).store.size
      _ ≤ 3 ^ actions.length := Nat.pow_le_pow_right (by norm_num) hsize
      _ ≤ 3 ^ (actions.length + 1) := hless
      _ ≤ settings.pivotLimit := hlimit
      _ = ((new settings).runActions actions).settings.pivotLimit := by rw [hsettings]

def withLimit (s : Solver) (limit : Nat) : Solver := { s with settings := { s.settings with pivotLimit := limit } }

/-- **Limits suffice.** For every framed problem, be its bounds crossed or not, there is a limit above which the engine
finds it feasible or infeasible, from whatever start. For every history of calls and exact passes there is a limit above
which no solver that was given one so high is undecided once it is asked, nor is an exact pass; for every reachable state
whose answer is not known yet, there is one to which its own can be raised. -/
theorem limits_suffice :
    (∀ p : Problem Rat Delta, p.Framed Arithmetic.exact →
      ∃ N : Nat, ∀ (start : Keyed Delta) (limit : Int), N < limit →
        ∃ r, Simplex.run Arithmetic.exact p start limit = .ok r ∧ (r.outcome = .feasible ∨ r.outcome = .infeasible)) ∧
    (∀ actions : List Action, ∃ N : Nat, ∀ settings : Settings, N < settings.pivotLimit →
      (∀ pass : Pass, ((new settings).runActions actions).Decides pass) ∧
      ∀ resting : Resting, (((new settings).runActions actions).solveOn resting).fault = none ∧
        (((new settings).runActions actions).solveOn resting).solver.verdict ≠ .unknown) ∧
    (∀ (settings : Settings) (s : Solver), Reachable settings s → s.solved = false →
      ∃ N : Nat, ∀ limit : Nat, N < limit → ∀ pass : Pass, (s.withLimit limit).Decides pass) := by
  refine ⟨fun p hp => ?_, fun actions => ?_, fun settings s h hunsolved => ?_⟩
  · exact ⟨3 ^ p.width, fun start limit hlimit => Simplex.run_decides hp start hlimit.le⟩
  · refine ⟨3 ^ actions.length, fun settings hlimit => ?_⟩
    obtain ⟨hsettings, hsize, hdecisive⟩ := decisive_runActions actions hlimit.le
    have hregistered := registered_runActions settings actions
    have hhigh : 3 ^ ((new settings).runActions actions).store.size ≤
        ((new settings).runActions actions).settings.pivotLimit := by
      rw [hsettings]
      exact (Nat.pow_le_pow_right (by norm_num) hsize).trans hlimit.le
    exact ⟨solveBy_decides hregistered hdecisive hhigh, solveOn_decides hregistered hhigh⟩
  · refine ⟨3 ^ s.store.size, fun limit hlimit pass => ?_⟩
    have hregistered : Registered (s.withLimit limit) :=
      (Rightful.of_reachable h).registered.congr rfl rfl rfl rfl rfl rfl rfl
    have hdecisive : Decisive (s.withLimit limit) := fun hsolved => by cases hunsolved.symm.trans hsolved
    exact solveBy_decides hregistered hdecisive hlimit.le pass

/-- `x₀ + x₁ = x₂` with `x₀ ≥ 3`, `x₁ > 1` and `x₂ ≤ 4` -/
def narrow : Problem Rat Delta where
  rows := [⟨[(0, 1), (1, 1), (2, -1)], by decide⟩]
  basis := [2]
  spans := [{ low := some ⟨3, 0⟩ }, { low := some ⟨1, 1⟩ }, { upper := some ⟨4, 0⟩ }]

theorem framed_narrow : narrow.Framed Arithmetic.exact where
  paired := rfl
  ranged := by decide
  solvable r hr := by
    rw [List.mem_singleton.1 hr]
    exact ⟨-1, rfl, by decide⟩
  distinct := by decide
  alone := by decide

/-- `x + y ≤ 4`, then `x ≥ 3` and `2x < 2`, which cross, with exact passes after each and an answer in between -/
def contested : List Action :=
  [.call (.addVar "x"), .call (.addVar "y"),
    .call (.addConstraint [(.number 1, .id 0), (.number 1, .id 1)] "<=" (.number 4)), .exactPass Keyed.empty,
    .call (.addConstraint [(.number 1, .id 0)] ">=" (.number 3)),
    .call (.addConstraint [(.number 2, .id 0)] "<" (.number 2)), .call (.solve fun _ => .ok {}), .exactPass Keyed.empty]

/-- a problem that no values satisfy, exact passes over bounds that cross, and three constraints before they are asked
about -/
theorem limits_suffice_narrow :
    (∃ N : Nat, ∀ (start : Keyed Delta) (limit : Int), N < limit →
      ∃ r, Simplex.run Arithmetic.exact narrow start limit = .ok r ∧
        (r.outcome = .feasible ∨ r.outcome = .infeasible)) ∧
    (∃ N : Nat, ∀ settings : Settings, N < settings.pivotLimit →
      (∀ pass : Pass, ((new settings).runActions contested).Decides pass) ∧
      ∀ resting : Resting, (((new settings).runActions contested).solveOn resting).fault = none ∧
        (((new settings).runActions contested).solveOn resting).solver.verdict ≠ .unknown) ∧
    ((new {}).runCalls crowded.dropLast).constraints.length = 3 ∧
    ∃ N : Nat, ∀ limit : Nat, N < limit →
      ∀ pass : Pass, (((new {}).runCalls crowded.dropLast).withLimit limit).Decides pass :=
  ⟨limits_suffice.1 narrow framed_narrow, limits_suffice.2.1 contested, by decide +kernel,
    limits_suffice.2.2 {} _ (reachable_runCalls {} crowded.dropLast) (by decide +kernel)⟩

end Solver

end Halfspace
