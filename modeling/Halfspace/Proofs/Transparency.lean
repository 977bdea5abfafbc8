/-
Questions leave no trace in later answers.

Accepted constraints discard the answers that a state holds; refused ones, new variables and questions leave some of
them behind, and a contradiction found during registration is never discarded. None of this shows in what is found
later: it depends on the problem posed and on the settings only, provided that the first pass does (`OfProblem`), as
the approximate pass does with every engine (`ofProblem_approximate`).
- `solveBy_finding`: states that pose the same problem and hold the same answers find the same;
- `Traceless.after`: what solving would find now is what a solver would find that was never asked, one call;
- `checks_leave_no_trace`: any calls.
-/
import Halfspace.Proofs.Additions
import Halfspace.Proofs.Limits
import Halfspace.Proofs.Registrations

namespace Halfspace

theorem fetch_mem {α : Type} {xs : List α} {i : Int} {a : α} (h : fetch xs i = .ok a) : a ∈ xs := by
  unfold fetch at h
  split at h
  · rename_i b hb
    obtain ⟨k, -, hk⟩ := Option.bind_eq_some_iff.1 hb
    exact Except.ok.inj h ▸ List.mem_of_getElem? hk
  · cases h

theorem Refutation.ofRow_congr {intervals intervals' : List Interval} {restated : List Restated}
    {row : List (Rat × Int)} (limit : DigitLimit) (h : ∀ e ∈ row, fetch intervals' e.2 = fetch intervals e.2) :
    ofRow intervals' restated row limit = ofRow intervals restated row limit := by
  unfold ofRow
  rw [mapM_congr]
  intro e he
  unfold witnessed
  rw [h e he]

namespace Solver

variable {s t : Solver} {settings : Settings} {pass : Pass}

/-! ## First passes -/

/-- a pass that looks at the settings and at the problem posed, in whatever arithmetic, and at nothing else -/
def OfProblem (pass : Pass) : Prop :=
  ∀ s t : Solver, t.settings = s.settings →
    (∀ {K V : Type} (A : Arithmetic K V), t.assemble A = s.assemble A) → pass t = pass s

/-- **The approximate pass** is such a pass, with any engine outside. -/
theorem ofProblem_approximate (engine : OutsideEngine) : OfProblem (·.approximate engine) := by
  intro s t hsettings hassemble
  simp only [approximate, chosenPass, simplexPass, passIn, passName, hsettings, hassemble]

/-! ## What is found -/

/-- the answers that a state holds, told values apart -/
def answers (s : Solver) : Verdict × Bool × Option Solution × Option Evidence :=
  (s.verdict, s.solved, s.solution, s.evidence)

theorem answers_eq_iff : t.answers = s.answers ↔
    t.verdict = s.verdict ∧ t.solved = s.solved ∧ t.solution = s.solution ∧ t.evidence = s.evidence := by
  simp only [answers, Prod.mk.injEq]

/-- what an action finds out -/
def finding (e : Effect) : Option Fault × Verdict × Bool × Option Solution × Option Evidence :=
  (e.fault, e.solver.answers)

theorem tellEvidence_eq (h : t.answers = s.answers) : t.tellEvidence = s.tellEvidence := by
  simp only [tellEvidence, answers_eq_iff.1 h]

theorem delta_eq (h : t.answers = s.answers) : t.delta = s.delta := by
  simp only [delta, satisfying?, answers_eq_iff.1 h]

/-- `t` poses the problem of `s`, with the same constraints behind it -/
structure SameProblem (s t : Solver) : Prop where
  settings : t.settings = s.settings
  assemble : ∀ {K V : Type} (A : Arithmetic K V), t.assemble A = s.assemble A
  intervals : ∀ i : Nat, i < s.store.size → t.intervals[i]? = s.intervals[i]?
  constraints : t.constraints = s.constraints
  restated : t.restated = s.restated
  clash : t.clash = s.clash

namespace SameProblem

theorem of_answers (h : SameProblem s t) {solution solution' : Option Solution} {pivots pivots' : Int} :
    SameProblem { s with solution := solution, pivots := pivots }
      { t with solution := solution', pivots := pivots' } :=
  ⟨h.settings, h.assemble, h.intervals, h.constraints, h.restated, h.clash⟩

theorem fetch_interval (h : SameProblem s t) (hs : Registered s) {i : Nat} (hi : i < s.store.size) :
    fetch t.intervals i = fetch s.intervals i := by
  have hinterval : s.intervals[i]? = some (Interval.ofSide s.restated i) := by simp [hs.intervals, hi]
  rw [fetch_natCast hinterval, fetch_natCast ((h.intervals i hi).trans hinterval)]

theorem exactRun_eq (h : SameProblem s t) (resting : Resting) : t.exactRun resting = s.exactRun resting := by
  simp only [exactRun, h.assemble, h.settings]

theorem runEvidence_eq (h : SameProblem s t) (hs : Registered s) {solution : Solution}
    (hsides : ∀ i ∈ solution.assembly.sides, i < s.store.size) : t.runEvidence solution = s.runEvidence solution := by
  unfold runEvidence
  cases hrow : ((solution.run.conflict.getD []).mapM fun e => do
      let side ← fetch solution.assembly.sides e.2
      return (e.1, (side : Int)) : Except Fault (List (Rat × Int))) with
  | error fault => rfl
  | ok row =>
    show Refutation.ofRow t.intervals t.restated row t.settings.digitLimit =
      Refutation.ofRow s.intervals s.restated row s.settings.digitLimit
    rw [h.restated, h.settings]
    apply Refutation.ofRow_congr
    have hsides' : ∀ e ∈ row, ∃ i : Nat, i < s.store.size ∧ e.2 = i := by
      refine forall_of_mapM ?_ hrow
      intro e e' he'
      obtain ⟨i, hi, heq⟩ := bind_eq_ok_iff.1 he'
      exact ⟨i, hsides i (fetch_mem hi), by rw [← Except.ok.inj heq]⟩
    intro e he
    obtain ⟨i, hi, heq⟩ := hsides' e he
    rw [heq]
    exact h.fetch_interval hs hi

theorem clashEvidence_eq (h : SameProblem s t) (hs : Registered s) {clash : Clash} (hclash : s.clash = some clash) :
    t.clashEvidence clash = s.clashEvidence clash := by
  cases clash with
  | side i =>
    obtain ⟨interval, hi, -⟩ := hs.clash_sound _ hclash
    have hlt : i < s.store.size := (hs.eq_ofSide hi).1
    show Refutation.ofRow t.intervals t.restated _ t.settings.digitLimit =
      Refutation.ofRow s.intervals s.restated _ s.settings.digitLimit
    rw [h.restated, h.settings]
    apply Refutation.ofRow_congr
    intro e he
    have heq : e.2 = i := by
      rcases List.mem_pair.1 he with rfl | rfl <;> rfl
    rw [heq]
    exact h.fetch_interval hs hlt
  | constraint id => simp only [clashEvidence, h.constraints]

/-! ### The steps of solving -/

theorem settle_finding (h : SameProblem s t) (ha : t.answers = s.answers) (evidence : Evidence) :
    finding (t.settle evidence) = finding (s.settle evidence) := by
  have hparts := answers_eq_iff.1 ha
  unfold settle
  rw [h.settings, h.constraints]
  split_ifs
  · simp only [finding, answers, hparts]
  · simp only [finding, answers, hparts]

theorem conclude_finding (h : SameProblem s t) (hs : Registered s) (ha : t.answers = s.answers) {solution : Solution}
    (hsides : ∀ i ∈ solution.assembly.sides, i < s.store.size) :
    finding (t.conclude solution) = finding (s.conclude solution) := by
  have hparts := answers_eq_iff.1 ha
  unfold conclude
  cases solution.run.outcome with
  | infeasible =>
    simp only [h.runEvidence_eq hs hsides]
    cases s.runEvidence solution with
    | ok evidence => exact h.settle_finding ha evidence
    | error fault => simp only [finding, answers, hparts]
  | _ => simp only [finding, answers, hparts]

theorem solveOn_finding (h : SameProblem s t) (hs : Registered s) (ha : t.answers = s.answers) (resting : Resting) :
    finding (t.solveOn resting) = finding (s.solveOn resting) := by
  have hparts := answers_eq_iff.1 ha
  unfold solveOn
  rw [h.exactRun_eq]
  cases hrun : s.exactRun resting with
  | error fault => simp only [finding, answers, hparts]
  | ok solution =>
    have hsides : ∀ i ∈ solution.assembly.sides, i < s.store.size := by
      intro i hi
      exact (Assembly.mem_usedSides.1 (exactRun_sides hrun ▸ hi)).1
    have hs' : Registered { s with solution := some solution, pivots := s.pivots + solution.run.pivots } :=
      hs.congr rfl rfl rfl rfl rfl rfl rfl
    exact h.of_answers.conclude_finding hs' (by simp only [answers, hparts]) hsides

theorem solveClash_finding (h : SameProblem s t) (hs : Registered s) (ha : t.answers = s.answers) {clash : Clash}
    (hclash : s.clash = some clash) : finding (t.solveClash clash) = finding (s.solveClash clash) := by
  have hparts := answers_eq_iff.1 ha
  unfold solveClash
  rw [h.clashEvidence_eq hs hclash]
  cases s.clashEvidence clash with
  | error fault => simp only [finding, answers, hparts]
  | ok evidence => exact h.settle_finding ha evidence

theorem solvePasses_finding (h : SameProblem s t) (hs : Registered s) (ha : t.answers = s.answers)
    (hpass : OfProblem pass) : finding (t.solvePasses pass) = finding (s.solvePasses pass) := by
  have hsame : pass t = pass s := hpass s t h.settings h.assemble
  unfold solvePasses
  rw [hsame]
  cases pass s with
  | error fault => exact congrArg (Prod.mk (some fault)) ha
  | ok hint =>
    have hs' : Registered { s with pivots := s.pivots + hint.pivots } := hs.congr rfl rfl rfl rfl rfl rfl rfl
    have h' : SameProblem { s with pivots := s.pivots + hint.pivots } { t with pivots := t.pivots + hint.pivots } :=
      h.of_answers
    exact h'.solveOn_finding hs' ha hint.resting

theorem completed_finding {e e' : Effect} (h : finding e' = finding e) :
    finding e'.completed = finding e.completed := by
  obtain ⟨hfault, hanswers⟩ := Prod.mk.inj h
  have hparts := answers_eq_iff.1 hanswers
  unfold Effect.completed
  rw [hfault]
  split_ifs
  · simp only [finding, answers, hparts]
  · exact h

/-- **Solving.** States that pose the same problem and hold the same answers find the same. -/
theorem solveBy_finding (h : SameProblem s t) (hs : Registered s) (ha : t.answers = s.answers)
    (hpass : OfProblem pass) : finding (t.solveBy pass) = finding (s.solveBy pass) := by
  have hsolved : t.solved = s.solved := (answers_eq_iff.1 ha).2.1
  unfold solveBy
  rw [hsolved, h.clash]
  split_ifs
  · exact congrArg (Prod.mk none) ha
  · cases hclash : s.clash with
    | some clash => exact completed_finding (h.solveClash_finding hs ha hclash)
    | none => exact completed_finding (h.solvePasses_finding hs ha hpass)

end SameProblem

/-! ## Calls -/

theorem sameProblem_addVar (hs : Registered s) (hsparing : Sparing s) (name : String) :
    SameProblem s (s.addVar name) where
  settings := rfl
  assemble := assemble_addVar hs hsparing name
  intervals _ hi := hs.intervals_addVar name hi
  constraints := rfl
  restated := rfl
  clash := rfl

/-- what solving would find is what a solver would find that was never asked -/
structure Traceless (settings : Settings) (pass : Pass) (s : Solver) : Prop where
  settings_eq : s.settings = settings
  finding_eq : finding (s.solveBy pass) = finding ((s.afresh settings).solveBy pass)

namespace Traceless

theorem addVar (hs : Registered s) (hsparing : Sparing s) (hpass : OfProblem pass) (h : Traceless settings pass s)
    (name : String) : Traceless settings pass (s.addVar name) where
  settings_eq := h.settings_eq
  finding_eq := by
    have hs' : Registered (s.afresh settings) := hs.congr rfl rfl rfl rfl rfl rfl rfl
    have hsparing' : Sparing (s.afresh settings) := ⟨hsparing.words, hsparing.active_iff⟩
    calc finding ((s.addVar name).solveBy pass)
      _ = finding (s.solveBy pass) := (sameProblem_addVar hs hsparing name).solveBy_finding hs rfl hpass
      _ = finding ((s.afresh settings).solveBy pass) := h.finding_eq
      _ = finding (((s.afresh settings).addVar name).solveBy pass) :=
        ((sameProblem_addVar hs' hsparing' name).solveBy_finding hs' rfl hpass).symm

/-- where the answers are forgotten there is nothing to leave a trace -/
theorem of_forget (hs : Registered s.forget) (hpass : OfProblem pass) (hsettings : s.settings = settings) :
    Traceless settings pass s.forget where
  settings_eq := hsettings
  finding_eq := by
    have hsame : SameProblem s.forget (s.forget.afresh settings) :=
      ⟨hsettings.symm, fun _ => rfl, fun _ _ => rfl, rfl, rfl, rfl⟩
    exact (hsame.solveBy_finding hs rfl hpass).symm

/-- solving again finds the same -/
theorem solve (hs : Registered s) (h : Traceless settings pass s) :
    Traceless settings pass (s.solveBy pass).solver where
  settings_eq := (follows_frame hs (.solve pass)).1.trans h.settings_eq
  finding_eq := by
    rw [afresh_solveBy hs, ← h.finding_eq]
    rcases solveBy_cases hs pass with ⟨-, hsame⟩ | ⟨_, -, -, hsame⟩ | ⟨hfault, s', -, -, hsolver⟩
    · rw [hsame, hsame]
    · rw [hsame]
    · rw [finding, finding, hfault, hsolver]
      rfl

theorem of_counts (hs : Registered s) (hpass : OfProblem pass) (h : Traceless settings pass s) {pivots : Int}
    {model : Option (List Rat)} : Traceless settings pass { s with pivots := pivots, model := model } where
  settings_eq := h.settings_eq
  finding_eq := by
    have hsame : SameProblem s { s with pivots := pivots, model := model } :=
      ⟨rfl, fun _ => rfl, fun _ _ => rfl, rfl, rfl, rfl⟩
    exact (hsame.solveBy_finding hs rfl hpass).trans h.finding_eq

/-- **One call.** -/
theorem after (hs : Registered s) (hsparing : Sparing s) (hpass : OfProblem pass) (h : Traceless settings pass s)
    {c : Call} (hc : ∀ other, c = .solve other → other = pass) : Traceless settings pass (s.after c) := by
  cases c with
  | addVar name => exact h.addVar hs hsparing hpass name
  | addConstraint terms relation rhs =>
    simp only [Solver.after]
    split
    · rename_i s' hs'
      have hregistered := registered_addConstraint hs hs'
      have hsettings := (follows_frame hs (.addConstraint hs')).1.trans h.settings_eq
      obtain ⟨s'', rfl⟩ := addConstraint_eq_forget hs'
      exact of_forget hregistered hpass hsettings
    · exact h
  | solve other =>
    obtain rfl := hc other rfl
    exact h.solve hs
  | hint other =>
    obtain ⟨pivots, hs'⟩ := s.exists_after_hint other
    rw [hs']
    exact h.of_counts hs hpass
  | tellModel =>
    obtain ⟨model, hs'⟩ := s.exists_after_tellModel
    rw [hs']
    exact h.of_counts hs hpass
  | inspect => exact h

/-- **Any calls** that solve with one pass. -/
theorem runCalls (hpass : OfProblem pass) (calls : List Call) (hcalls : ∀ other, .solve other ∈ calls → other = pass) :
    Traceless settings pass ((new settings).runCalls calls) := by
  induction calls using List.reverseRecOn with
  | nil => exact ⟨rfl, rfl⟩
  | append_singleton calls c ih =>
    have hreachable := reachable_runCalls settings calls
    have hbefore := ih fun other hother => hcalls other (List.mem_append_left _ hother)
    rw [runCalls_concat]
    refine hbefore.after (Rightful.of_reachable hreachable).registered (Sparing.of_reachable hreachable) hpass ?_
    intro other hother
    exact hcalls other (by simp [hother])

end Traceless

/-- **Questions leave no trace.** After any calls, among them refused constraints, questions and earlier checks, a check
finds what it finds in a new solver with the same settings after the accepted registrations alone: it fails alike or has
the same verdict, tells the same evidence, and chooses the same number for the infinitesimal. Its first pass may be any
function of the settings and the problem posed. -/
theorem checks_leave_no_trace (settings : Settings) {pass : Pass} (hpass : OfProblem pass) (calls : List Call)
    (hcalls : ∀ other, .solve other ∈ calls → other = pass) :
    let asked := ((new settings).runCalls calls).solveBy pass
    let fresh := ((new settings).runCalls ((new settings).registrations calls)).solveBy pass
    asked.fault = fresh.fault ∧ asked.solver.verdict = fresh.solver.verdict ∧
      asked.solver.evidence = fresh.solver.evidence ∧ asked.solver.tellEvidence = fresh.solver.tellEvidence ∧
      asked.solver.delta = fresh.solver.delta := by
  intro asked fresh
  have hfinding : finding asked = finding fresh := by
    have htraceless : Traceless settings pass ((new settings).runCalls calls) := .runCalls hpass calls hcalls
    have hsame := htraceless.finding_eq
    rwa [afresh_runCalls (.refl _)] at hsame
  obtain ⟨hfault, hanswers⟩ := Prod.mk.inj hfinding
  obtain ⟨hverdict, -, -, hevidence⟩ := answers_eq_iff.1 hanswers
  exact ⟨hfault, hverdict, hevidence, tellEvidence_eq hanswers, delta_eq hanswers⟩

/-- an engine that proposes zero for every column -/
def flat : OutsideEngine := fun _ p =>
  .ok { outcome := .feasible, values := some (List.replicate p.width Double.zero) }

/-- `x + y < 4`, then `x - y > 3` after a check; a constraint on no variable is refused, and the last variable comes
after the last check -/
def probed : List Call :=
  [.addVar "x", .addVar "y", .addConstraint [(.number 1, .id 0), (.number 1, .id 1)] "<" (.number 4),
    .solve (·.approximate flat), .tellModel, .addConstraint [(.number 1, .id 7)] "<=" (.number 1),
    .addConstraint [(.number 1, .id 0), (.number (-1), .id 1)] ">" (.number 3), .inspect,
    .solve (·.approximate flat), .addVar "z"]

/-- five of ten calls register something; the answer kept from the last check is that of a new solver with all three
variables -/
theorem probed_leaves_no_trace : ((new {}).registrations probed).length = 5 ∧
    (((new {}).runCalls probed).solveBy (·.approximate flat)).solver.verdict = .satisfiable ∧
    (((new {}).runCalls probed).solveBy (·.approximate flat)).solver.delta = .ok (1 / 4) := by
  have hcalls : ∀ other, .solve other ∈ probed → other = (·.approximate flat) := by simp [probed]
  obtain ⟨-, hverdict, -, -, hdelta⟩ := checks_leave_no_trace {} (ofProblem_approximate flat) probed hcalls
  exact ⟨by decide +kernel, hverdict.trans (by decide +kernel), hdelta.trans (by decide +kernel)⟩

end Solver

end Halfspace
