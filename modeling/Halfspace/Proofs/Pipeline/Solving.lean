/-
What solving finds out.

The exact pass of a registered state does not fail, whatever resting it starts from. If its run is feasible, the values
of the columns, with the chosen number in the place of the infinitesimal, satisfy every constraint; if the run is
infeasible, its last row gives correct evidence; and it reaches its limit only if that is below `3 ^ n` for the number
`n` of sides.
- `model_of_feasible`, `runEvidence_correct`: the two answers;
- `Concludes`: what a conclusion may be, and `solveOn_concludes`, `solveClash_concludes`: both ways to one;
- `solveBy_cases`, `solveBy_keeps`: what solving leaves behind, in all cases.
-/
import Halfspace.Proofs.Engine.Bland
import Halfspace.Proofs.Engine.Conflict
import Halfspace.Proofs.Pipeline.Columns
import Halfspace.Proofs.Pipeline.Evidence
import Halfspace.Proofs.Pipeline.Infinitesimal
import Halfspace.Solver.Session

namespace Halfspace

open LinearForm Simplex

namespace Solver

variable {s : Solver} {a : Assembly Rat Delta} {st : State Rat Delta}

/-! ## Feasible runs -/

/-- the values of a sound state whose columns all lie within their bounds, at the chosen number -/
theorem admits_columns {solution : Solution} (hvalues : solution.run.values = some st.values)
    (hsound : Sound solution.assembly.problem st)
    (hin : ∀ j : Int, 0 ≤ j ∧ j < solution.assembly.problem.width →
      (solution.assembly.problem.span j).Contains (st.at j)) {j : Nat} (hj : j < solution.assembly.problem.width) :
    Epsilon.Admits (Epsilon.choose (columns solution)) (st.at j, solution.assembly.problem.span j) := by
  set p := solution.assembly.problem with hp
  have hvals : ∀ {k : Nat}, k < p.width → st.values[k]? = some (st.at k) := fun hk =>
    State.getElem?_values Arithmetic.exact (hsound.length ▸ hk)
  have hcolumn : ∀ column ∈ columns solution, column.2.Contains column.1 := by
    intro column hcol
    obtain ⟨k, hk⟩ := List.mem_iff_getElem?.1 hcol
    rw [columns, hvalues, Option.getD_some, List.getElem?_zip_eq_some] at hk
    have hlt : k < p.width := (List.getElem?_eq_some_iff.1 hk.2).1
    rw [hvals hlt, ← hp, Problem.getElem?_spans hlt] at hk
    rw [← Option.some.inj hk.1, ← Option.some.inj hk.2]
    exact hin k (by omega)
  have hmem : (st.at j, p.span j) ∈ columns solution := by
    refine List.mem_iff_getElem?.2 ⟨j, ?_⟩
    rw [columns, hvalues, Option.getD_some, List.getElem?_zip_eq_some]
    exact ⟨hvals hj, Problem.getElem?_spans hj⟩
  exact Epsilon.admits_of_le_choose hcolumn (Epsilon.choose_pos _).le le_rfl _ hmem

theorem Registered.told_value (h : Registered s) {solution : Solution} (ha : Assembled s solution.assembly)
    (hvalues : solution.run.values = some st.values) (hsound : Sound solution.assembly.problem st) {x : Int}
    (hx : 0 ≤ x ∧ x < s.vars.count) (hactive : s.vars.isActive x = true) :
    assignmentOf (s.valuesIn solution) x =
      Assembly.assignmentOf s.store solution.assembly.sides
        (fun j => (st.at j).valueAt (Epsilon.choose (columns solution))) x := by
  obtain ⟨i, -, hside, hcol, -⟩ := h.column_of_active hx hactive
  rw [← ha.sides] at hcol
  set j := Assembly.varColumn s.store solution.assembly.sides x with hj
  have hcolumn : Assembly.columnOf? solution.assembly.sides i = some j :=
    (Assembly.columnOf?_eq_some_iff (ha.sides ▸ Assembly.nodup_usedSides)).2 hcol
  have hlt : j < st.values.length := by
    rw [hsound.length, ha.width]
    exact (List.getElem?_eq_some_iff.1 hcol).1
  have hvalue : st.values[j]? = some (st.at j) := State.getElem?_values Arithmetic.exact hlt
  show (if x < 0 then 0 else (s.valuesIn solution).getD x.toNat 0) = (st.at j).valueAt _
  rw [if_neg (not_lt.2 hx.1), valuesIn, List.getD_eq_getElem?_getD, List.getElem?_map, hside]
  simp [sideValue, hcolumn, hvalues, hvalue]

/-- **Models.** Where no contradiction was found during registration, a feasible run tells values that satisfy every
constraint. -/
theorem model_of_feasible (h : Registered s) (hclash : s.clash = none) (solution : Solution)
    (ha : Assembled s solution.assembly) (hvalues : solution.run.values = some st.values)
    (hsound : Sound solution.assembly.problem st)
    (hin : ∀ j : Int, 0 ≤ j ∧ j < solution.assembly.problem.width →
      (solution.assembly.problem.span j).Contains (st.at j)) :
    ∀ c ∈ s.constraints, c.holds (assignmentOf (s.valuesIn solution)) = true := by
  intro c hc
  obtain ⟨k, hk⟩ := List.mem_iff_getElem?.1 hc
  obtain ⟨r, hr, -, hrestates⟩ := h.exists_restated hk
  have hmem := List.mem_of_getElem? hr
  rw [hrestates.holds_iff]
  cases hside : r.side with
  | none => exact (h.clash_complete hclash).2 r hmem hside
  | some i =>
    have hused := h.used_of_confined hmem hside
    obtain ⟨j, hj⟩ := List.mem_iff_getElem?.1 hused
    rw [← ha.sides] at hj
    have hlt : j < solution.assembly.problem.width := ha.width ▸ (List.getElem?_eq_some_iff.1 hj).1
    set d := Epsilon.choose (columns solution) with hd
    set y : Int → Rat := fun j => (st.at j).valueAt d with hy
    -- the numbers in the columns satisfy the rows, as the values with infinitesimals do
    have hrows : solution.assembly.problem.Vanishes y := by
      intro row hrow
      have hdelta := (hsound.same Delta st.at).1 hsound.solves row hrow
      have hmap := Row.map_total (Delta.valueMap d) row st.at
      rw [hdelta, map_zero] at hmap
      exact hmap.symm
    have hvalue : s.store.valueOf (assignmentOf (s.valuesIn solution)) (some i) = y j := by
      rw [(ha.vanishes_iff y).1 hrows j i hj]
      refine eval_congr fun t ht => ?_
      obtain ⟨hrange, hactive⟩ := h.active_of_used hused ht
      exact h.told_value ha hvalues hsound hrange hactive
    rw [hvalue]
    have hadmits := admits_columns hvalues hsound hin hlt
    rw [ha.span j i hj] at hadmits
    have hcontains := Interval.contains_valueAt (Epsilon.choose_pos _) hadmits
    exact Interval.contains_ofSide_iff.1 hcontains r hmem hside

/-! ## Infeasible runs -/

def sideOf (sides : List Nat) (j : Int) : Nat := sides[j.toNat]?.getD 0

def sideWeights (sides : List Nat) (ws : List (Rat × Int)) : List (Rat × Nat) := ws.map fun w => (w.1, sideOf sides w.2)

theorem Assembled.getElem?_sideOf (ha : Assembled s a) {j : Int} (hj : 0 ≤ j ∧ j < a.problem.width) :
    a.sides[j.toNat]? = some (sideOf a.sides j) := by
  obtain ⟨i, hi⟩ := ha.exists_side hj
  simp [sideOf, hi]

theorem Assembled.span_sideOf (ha : Assembled s a) {j : Int} (hj : 0 ≤ j ∧ j < a.problem.width) :
    a.problem.span j = (Interval.ofSide s.restated (sideOf a.sides j)).span := by
  have hspan := ha.span j.toNat _ (ha.getElem?_sideOf hj)
  rwa [Int.toNat_of_nonneg hj.1] at hspan

theorem Assembled.mapM_sideWeights (ha : Assembled s a) {ws : List (Rat × Int)}
    (hws : ∀ w ∈ ws, 0 ≤ w.2 ∧ w.2 < a.problem.width) :
    (ws.mapM fun e => do
      let side ← fetch a.sides e.2
      return (e.1, (side : Int)) : Except Fault (List (Rat × Int))) =
      .ok ((sideWeights a.sides ws).map fun e => (e.1, (e.2 : Int))) := by
  rw [sideWeights, List.map_map]
  refine mapM_ok fun w hw => ?_
  have hfetch := fetch_natCast (ha.getElem?_sideOf (hws w hw))
  rw [Int.toNat_of_nonneg (hws w hw).1] at hfetch
  rw [hfetch]
  rfl

theorem held_sideWeights (ha : Assembled s a) {ws : List (Rat × Int)} (h : Refutes a.problem ws) :
    Held s (sideWeights a.sides ws) := by
  constructor
  · intro e he
    obtain ⟨w, hw, rfl⟩ := List.mem_map.1 he
    exact h.nonzero w hw
  · intro e he
    obtain ⟨w, hw, rfl⟩ := List.mem_map.1 he
    have hused : sideOf a.sides w.2 ∈ Assembly.usedSides s.store s.vars :=
      ha.sides ▸ List.mem_of_getElem? (ha.getElem?_sideOf (h.in_range w hw))
    exact (Assembly.mem_usedSides.1 hused).1
  · intro e he
    obtain ⟨w, hw, rfl⟩ := List.mem_map.1 he
    obtain ⟨g, hg⟩ := h.held w hw
    rw [ha.span_sideOf (h.in_range w hw), Interval.holding_span] at hg
    obtain ⟨l, hl, -⟩ := Option.map_eq_some_iff.1 hg
    exact ⟨l, hl⟩

/-- the evidence of a run is that of its row, read as weights of sides -/
theorem runEvidence_eq {solution : Solution} (ha : Assembled s solution.assembly) {ws : List (Rat × Int)}
    (hconflict : solution.run.conflict = some ws) (hws : ∀ w ∈ ws, 0 ≤ w.2 ∧ w.2 < solution.assembly.problem.width) :
    s.runEvidence solution = Refutation.ofRow s.intervals s.restated
      ((sideWeights solution.assembly.sides ws).map fun e => (e.1, (e.2 : Int))) s.settings.digitLimit := by
  unfold runEvidence
  rw [hconflict, Option.getD_some, ha.mapM_sideWeights hws]
  rfl

/-- **Refutations.** A refuted problem gives correct evidence. -/
theorem runEvidence_correct (h : Registered s) (solution : Solution) (ha : Assembled s solution.assembly)
    {ws : List (Rat × Int)} (hconflict : solution.run.conflict = some ws)
    (hrefutes : Refutes solution.assembly.problem ws) :
    ∃ evidence, s.runEvidence solution = .ok evidence ∧ Refutation.isCorrect s.constraints evidence = true := by
  set sides := solution.assembly.sides
  have hleft : ∀ v, ((sideWeights sides ws).map fun e => e.1 * s.store.valueOf v (some e.2)).sum = 0 := by
    intro v
    rw [← hrefutes.vanishes Rat _ (ha.vanishes_of_assignment h v), sideWeights, List.map_map]
    refine congrArg List.sum (List.map_congr_left fun w hw => ?_)
    show w.1 * s.store.valueOf v (some (sideOf sides w.2)) = w.1 * s.store.valueOf v sides[w.2.toNat]?
    rw [ha.getElem?_sideOf (hrefutes.in_range w hw)]
  have hneg : ((sideWeights sides ws).map fun e =>
      e.1 • ((Interval.ofSide s.restated e.2).span.holding e.1).getD 0).sum < 0 := by
    refine lt_of_eq_of_lt (congrArg List.sum ?_) hrefutes.negative
    rw [sideWeights, List.map_map]
    refine List.map_congr_left fun w hw => ?_
    show w.1 • ((Interval.ofSide s.restated (sideOf sides w.2)).span.holding w.1).getD 0 = _
    rw [← ha.span_sideOf (hrefutes.in_range w hw)]
  rw [runEvidence_eq ha hconflict hrefutes.in_range]
  exact ofRow_correct h _ (held_sideWeights ha hrefutes) hleft hneg

/-! ## Conclusions -/

/-- what a state becomes by an answer: satisfiable, with values that satisfy every constraint unless a contradiction was
found during registration; unsatisfiable, with correct evidence; or undecided, because the limit is low -/
inductive Concludes (s : Solver) : Solver → Prop where
  | satisfiable {solution : Solution} {pivots : Int}
      (model : s.clash = none → ∀ c ∈ s.constraints, c.holds (assignmentOf (s.valuesIn solution)) = true) :
      Concludes s { s with solution := some solution, pivots := pivots, verdict := .satisfiable }
  | unsatisfiable {solution : Option Solution} {pivots : Int} {evidence : Evidence}
      (correct : Refutation.isCorrect s.constraints evidence = true) :
      Concludes s { s with
        solution := solution, pivots := pivots, evidence := some evidence, verdict := .unsatisfiable }
  | undecided {solution : Solution} {pivots : Int} (low : s.settings.pivotLimit < 3 ^ s.store.size) :
      Concludes s { s with solution := some solution, pivots := pivots, verdict := .unknown }

theorem Concludes.of_pivots {s' : Solver} {n : Int} (h : Concludes { s with pivots := n } s') : Concludes s s' := by
  cases h with
  | satisfiable model => exact .satisfiable model
  | unsatisfiable correct => exact .unsatisfiable correct
  | undecided low => exact .undecided low

theorem settle_of_isCorrect {evidence : Evidence} (h : Refutation.isCorrect s.constraints evidence = true) :
    s.settle evidence = { solver := { s with evidence := some evidence, verdict := .unsatisfiable } } := by
  simp [settle, h]

theorem conclude_of_isCorrect {solution : Solution} {evidence : Evidence}
    (houtcome : solution.run.outcome = .infeasible) (hevidence : s.runEvidence solution = .ok evidence)
    (h : Refutation.isCorrect s.constraints evidence = true) :
    s.conclude solution = { solver := { s with evidence := some evidence, verdict := .unsatisfiable } } := by
  simp only [conclude, houtcome, hevidence]
  exact settle_of_isCorrect h

theorem exactRun_of_run {resting : Resting} {r : Run Rat Delta} (hassemble : s.assemble Arithmetic.exact = .ok a)
    (hrun : Simplex.run Arithmetic.exact a.problem (resting.start Arithmetic.exact a.problem) s.settings.pivotLimit =
      .ok r) : s.exactRun resting = .ok ⟨a, r⟩ := by
  unfold exactRun
  rw [hassemble]
  show (Simplex.run _ _ _ _ >>= fun run => _) = _
  rw [hrun]
  rfl

theorem exactRun_sides {resting : Resting} {solution : Solution} (h : s.exactRun resting = .ok solution) :
    solution.assembly.sides = Assembly.usedSides s.store s.vars := by
  obtain ⟨a, ha, h⟩ := bind_eq_ok_iff.1 h
  obtain ⟨run, -, h⟩ := bind_eq_ok_iff.1 h
  obtain ⟨names, -, ha⟩ := bind_eq_ok_iff.1 ha
  obtain ⟨rows, -, ha⟩ := bind_eq_ok_iff.1 ha
  obtain ⟨spans, -, ha⟩ := bind_eq_ok_iff.1 ha
  rw [← Except.ok.inj h, ← Except.ok.inj ha]

/-- **The exact pass.** It does not fail, and its answer is right. -/
theorem solveOn_concludes (h : Registered s) (resting : Resting) :
    (s.solveOn resting).fault = none ∧ Concludes s (s.solveOn resting).solver := by
  obtain ⟨a, hassemble, ha⟩ := assemble_spec h
  obtain ⟨st, es, st', r, hrun, hsound, hsettled, -, hpath, hend⟩ :=
    run_cases ha.framed (resting.start Arithmetic.exact a.problem) s.settings.pivotLimit
  have hsound' := hpath.sound hsound
  unfold solveOn
  rw [exactRun_of_run hassemble hrun]
  rcases hend with ⟨-, hend⟩ | ⟨hlen, rfl⟩
  · obtain ⟨hvalues, ⟨houtcome, hbasic⟩ | ⟨houtcome, ws, hconflict, hrefutes, -⟩⟩ := hend.outcome_cases hsound'
    · simp only [conclude, houtcome]
      refine ⟨trivial, .satisfiable fun hclash => ?_⟩
      have hinside := (hpath.settled hsound hsettled).inside (ha.regular h hclash)
      refine model_of_feasible h hclash ⟨a, r⟩ ha hvalues hsound' fun j hj => ?_
      by_cases hmem : j ∈ st'.tableau.keys
      · exact hbasic j hmem
      · exact hinside j hj hmem
    · obtain ⟨evidence, hevidence, hcorrect⟩ := runEvidence_correct h ⟨a, r⟩ ha hconflict hrefutes
      -- the solution is kept before its evidence is read off
      have hconclude := conclude_of_isCorrect (s := { s with solution := some ⟨a, r⟩, pivots := s.pivots + r.pivots })
        houtcome hevidence hcorrect
      simp only [hconclude]
      exact ⟨trivial, .unsatisfiable hcorrect⟩
  · refine ⟨rfl, .undecided ?_⟩
    calc s.settings.pivotLimit
      _ = es.length := by omega
      _ < 3 ^ a.problem.width := hpath.length_lt hsound hsettled
      _ = 3 ^ (Assembly.usedSides s.store s.vars).length := by rw [ha.width, ha.sides]
      _ ≤ 3 ^ s.store.size := Nat.pow_le_pow_right (by norm_num) Assembly.length_usedSides_le

/-! ## Contradictions found during registration -/

theorem clashEvidence_correct (h : Registered s) {clash : Clash} (hclash : s.clash = some clash) :
    ∃ evidence, s.clashEvidence clash = .ok evidence ∧ Refutation.isCorrect s.constraints evidence = true := by
  cases clash with
  | side i =>
    obtain ⟨interval, hi, hempty⟩ := h.clash_sound _ hclash
    exact ofConflict_correct h hi hempty
  | constraint id =>
    obtain ⟨c, hc, rfl, hcancels, hfalse⟩ := h.clash_sound _ hclash
    exact ⟨_, by simp only [clashEvidence, hc], ofFalse_correct hc hcancels hfalse⟩

/-- **The answer of registration.** It is unsatisfiable, and right. -/
theorem solveClash_concludes (h : Registered s) {clash : Clash} (hclash : s.clash = some clash) :
    (s.solveClash clash).fault = none ∧ Concludes s (s.solveClash clash).solver ∧
      (s.solveClash clash).solver.verdict = .unsatisfiable := by
  obtain ⟨evidence, hevidence, hcorrect⟩ := clashEvidence_correct h hclash
  simp only [solveClash, hevidence, settle_of_isCorrect hcorrect]
  exact ⟨trivial, .unsatisfiable hcorrect, trivial⟩

/-! ## Solving -/

theorem completed_of_fault_eq_none {e : Effect} (h : e.fault = none) :
    e.completed = { e with solver := { e.solver with solved := true } } := by
  simp [Effect.completed, h]

/-- **Solving.** It changes nothing when the answer is known, fails with its first pass only, and otherwise keeps a
conclusion, which is unsatisfiable where a contradiction was found during registration. -/
theorem solveBy_cases (h : Registered s) (pass : Pass) :
    (s.solved = true ∧ s.solveBy pass = { solver := s }) ∨
      (∃ f, pass s = .error f ∧ (s.solveBy pass).fault = some f ∧ (s.solveBy pass).solver = s) ∨
      ((s.solveBy pass).fault = none ∧ ∃ s', Concludes s s' ∧ (s.clash = none ∨ s'.verdict = .unsatisfiable) ∧
        (s.solveBy pass).solver = { s' with solved := true }) := by
  unfold solveBy
  split_ifs with hsolved
  · exact Or.inl ⟨hsolved, rfl⟩
  right
  cases hclash : s.clash with
  | some clash =>
    obtain ⟨hfault, hconcludes, hverdict⟩ := solveClash_concludes h hclash
    simp only [completed_of_fault_eq_none hfault]
    exact Or.inr ⟨hfault, _, hconcludes, Or.inr hverdict, rfl⟩
  | none =>
    cases hpass : pass s with
    | error f =>
      simp only [solvePasses, hpass]
      exact Or.inl ⟨f, rfl, rfl, rfl⟩
    | ok hint =>
      have hcounted : Registered { s with pivots := s.pivots + hint.pivots } := h.congr rfl rfl rfl rfl rfl rfl rfl
      obtain ⟨hfault, hconcludes⟩ := solveOn_concludes hcounted hint.resting
      have hpasses : (s.solvePasses pass).fault = none := by
        simp only [solvePasses, hpass]
        exact hfault
      simp only [completed_of_fault_eq_none hpasses]
      refine Or.inr ⟨hpasses, _, ?_, Or.inl trivial, rfl⟩
      simp only [solvePasses, hpass]
      exact hconcludes.of_pivots

/-- what holds before solving and after every conclusion holds after solving -/
theorem solveBy_keeps (h : Registered s) (pass : Pass) {motive : Solver → Prop} (hbefore : motive s)
    (hafter : ∀ s', Concludes s s' → s.clash = none ∨ s'.verdict = .unsatisfiable →
      motive { s' with solved := true }) : motive (s.solveBy pass).solver := by
  rcases solveBy_cases h pass with ⟨-, hsame⟩ | ⟨_, -, -, hsame⟩ | ⟨-, s', hconcludes, hclash, hsolver⟩
  · rw [hsame]
    exact hbefore
  · rw [hsame]
    exact hbefore
  · rw [hsolver]
    exact hafter s' hconcludes hclash

end Solver

end Halfspace
