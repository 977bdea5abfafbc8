/-
What the approximate pass can cost.

The approximate pass assembles the problem in an arithmetic of its own and runs the engine there. Conversions fail only
for numbers that are too large (`Converts`), and then the pass is skipped. The run can fail only by a division by null,
and does not where null counts as zero (`Arithmetic.Guarded`): always over the longer floats, over doubles when the
tolerance is not negative.
- `assemble_ends`: the problem of a registered state in any arithmetic;
- `simplexPass_ends`, `approximate_ends`: every way in which a pass ends;
- `accepted_is_safe`: with a sensible request solving never fails, and trouble costs only the hint; with any other it
  fails in one way only, which the request explains;
- `negative_tolerance_fails`: such a request, which is accepted.
-/
import Halfspace.Proofs.Engine.Safety
import Halfspace.Proofs.Limits

namespace Halfspace

open Keyed

variable {K V : Type} {A : Arithmetic K V}

/-! ## Conversions -/

namespace Arithmetic

/-- conversions fail only for numbers that are too large, and minus one is not null -/
structure Converts (A : Arithmetic K V) : Prop where
  coefficient : ∀ q, Ends (fun _ => True) (· = .doubleOverflow) (A.coefficient q)
  lowBound : ∀ q strict, Ends (fun _ => True) (· = .doubleOverflow) (A.lowBound q strict)
  upperBound : ∀ q strict, Ends (fun _ => True) (· = .doubleOverflow) (A.upperBound q strict)
  unit : A.isNull (A.neg A.one) = false

theorem toDouble_ends (q : Rat) : Ends (fun _ => True) (· = .doubleOverflow) (toDouble q) := by
  unfold toDouble
  split
  · exact trivial
  · exact rfl

theorem converts_double (tolerance : Double) : (double tolerance).Converts where
  coefficient := toDouble_ends
  lowBound q _ := toDouble_ends q
  upperBound q _ := toDouble_ends q
  unit := by
    show Double.isZero (Double.neg Double.one) = false
    decide

theorem one_le_binaryDigits (digits : Nat) : 1 ≤ binaryDigits digits := by
  unfold binaryDigits
  cases hdigits : binaryDigits? digits with
  | none => exact le_rfl
  | some n =>
    obtain ⟨q, -, rfl⟩ := Option.map_eq_some_iff.1 hdigits
    exact le_max_left _ _

theorem converts_extended (digits : Nat) : (extended digits).Converts where
  coefficient _ := trivial
  lowBound _ _ := trivial
  upperBound _ _ := trivial
  unit := decide_eq_false (Rounding.significant_neg_one_ne_zero (one_le_binaryDigits digits))

end Arithmetic

namespace Solver

open Assembly

variable {s : Solver} {settings : Settings}

/-! ## Assembly in any arithmetic -/

theorem spanOf_ends (hA : A.Converts) (i : Interval) : Ends (fun _ => True) (· = .doubleOverflow) (spanOf A i) := by
  unfold spanOf
  apply Ends.bind (Ends.optionMapM (fun l => hA.lowBound l.value l.strict) i.low)
  intro low _
  apply Ends.bind (Ends.optionMapM (fun u => hA.upperBound u.value u.strict) i.upper)
  intro upper _
  exact trivial

theorem Registered.rowOf_ends (h : Registered s) (hA : A.Converts) {e : Nat × LinearForm}
    (he : e ∈ slacks s.store (usedSides s.store s.vars)) :
    Ends (IsRow A s.store (usedSides s.store s.vars) e) (· = .doubleOverflow)
      (rowOf A s.store (usedSides s.store s.vars) e.2 e.1) := by
  obtain ⟨-, -, hcolumns⟩ := h.slack_spec he
  unfold rowOf
  apply Ends.bind (P := fun row : Row K => ∀ k ∈ row.keys,
    ∃ t ∈ e.2, k = varColumn s.store (usedSides s.store s.vars) t.var)
  · apply Ends.foldlM
    · intro row hrow t ht
      rw [(hcolumns t ht).1]
      apply Ends.bind (hA.coefficient t.coef)
      intro a _ k hk
      rcases mem_keys_put.1 hk with rfl | hk
      · exact ⟨t, ht, rfl⟩
      · exact hrow k hk
    · simp [keys, Keyed.empty]
  · intro row hrow
    refine ⟨fun k hk => ?_, by simp⟩
    exact (mem_keys_put.1 hk).imp id (hrow k)

/-- **Assembly.** A registered state can be assembled in any arithmetic, unless a number is too large for it. -/
theorem assemble_ends (h : Registered s) (hA : A.Converts) :
    Ends (fun a => a.problem.Framed A) (· = .doubleOverflow) (s.assemble A) := by
  obtain ⟨names, hnames⟩ := h.exists_names
  unfold assemble ofSides
  dsimp only
  rw [hnames]
  apply Ends.bind (Ends.mapM fun e he => h.rowOf_ends hA he)
  intro rows hrows
  apply Ends.bind (Ends.mapM fun i _ => spanOf_ends hA i)
  intro spans hspans
  apply h.framed hA.unit hrows rfl
  exact hspans.length_eq.symm.trans (List.length_map _)

/-! ## Passes -/

/-- a pass with the simplex of this library ends with a hint, with numbers that are too large, or with a division by a
null that does not count as zero -/
theorem simplexPass_ends (h : Registered s) (hA : A.Converts) :
    Ends (fun hint => hint.warning = none)
      (fun fault => fault = .doubleOverflow ∨ (fault = .divisionByZero ∧ ¬A.Guarded)) (s.simplexPass A) := by
  unfold simplexPass passIn
  apply Ends.bind ((assemble_ends h hA).imp (fun _ => id) fun _ => Or.inl)
  intro a hframed
  have hrun := Simplex.run_finishes hframed Keyed.empty s.settings.pivotLimit
  apply Ends.bind (hrun.imp (fun _ => id) fun _ => Or.inr)
  intro r hfinished
  obtain ⟨resting, hresting⟩ := hfinished.exists_resting (A := A)
  rw [hresting]
  exact rfl

/-- what may keep the pass that the settings ask for from giving a hint -/
theorem chosenPass_ends (h : Registered s) (hsimplex : s.settings.engine = .simplex) (engine : OutsideEngine) :
    Ends (fun hint => hint.warning = none)
      (fun fault => fault = .doubleOverflow ∨
        (fault = .divisionByZero ∧ s.settings.precision = none ∧ Double.zero.le s.settings.tolerance = false))
      (s.chosenPass engine) := by
  unfold chosenPass
  rw [hsimplex]
  cases hprecision : s.settings.precision with
  | none =>
    apply (simplexPass_ends h (Arithmetic.converts_double _)).imp (fun _ => id)
    intro fault hfails
    rcases hfails with hlarge | ⟨hdivides, hunguarded⟩
    · exact Or.inl hlarge
    · exact Or.inr ⟨hdivides, rfl, Bool.eq_false_iff.2 fun hle => hunguarded (Arithmetic.guarded_double hle)⟩
  | some digits =>
    apply (simplexPass_ends h (Arithmetic.converts_extended digits)).imp (fun _ => id)
    intro fault hfails
    rcases hfails with hlarge | ⟨-, hunguarded⟩
    · exact Or.inl hlarge
    · exact absurd (Arithmetic.guarded_extended digits) hunguarded

/-- **The approximate pass** gives a hint, which is the empty one with a warning when numbers are too large. It fails
only where digits cannot be counted, and over doubles whose tolerance excludes zero. -/
theorem approximate_ends (h : Registered s) (hsimplex : s.settings.engine = .simplex) (engine : OutsideEngine) :
    Ends (fun hint => hint.warning = none ∨ hint = skippedPass s.passName .doubleOverflow)
      (fun fault => (fault = .doubleOverflow ∧ s.settings.hasDigits = false) ∨
        (fault = .divisionByZero ∧ s.settings.precision = none ∧ Double.zero.le s.settings.tolerance = false))
      (s.approximate engine) := by
  unfold approximate
  cases hdigits : s.settings.hasDigits with
  | false => exact Or.inl ⟨rfl, rfl⟩
  | true =>
    rw [Bool.not_true, if_neg Bool.false_ne_true]
    rcases (chosenPass_ends h hsimplex engine).cases with ⟨hint, hhint, hwarning⟩ | ⟨fault, hfault, rfl | hdivides⟩
    · rw [hhint]
      exact Or.inl hwarning
    · rw [hfault]
      exact Or.inr rfl
    · rw [hfault, hdivides.1]
      exact Or.inr ⟨rfl, hdivides.2⟩

/-! ## Accepted requests -/

theorem settings_of_reachable (h : Reachable settings s) : s.settings = settings := by
  induction h with
  | new => rfl
  | call c hs ih => exact (follows_frame (Rightful.of_reachable hs).registered (follows_after _ c)).1.trans ih
  | exactPass resting hs ih =>
    exact (solveOn_concludes (Rightful.of_reachable hs).registered resting).2.settings_eq.trans ih

end Solver

theorem Settings.ofRequest_ok {r : Request} {settings : Settings} (h : ofRequest r = .ok settings) :
    EngineChoice.read r.engine = .ok settings.engine ∧ settings.precision = r.precision.map Int.toNat ∧
      settings.tolerance = r.tolerance := by
  obtain ⟨engine, hengine, h⟩ := bind_eq_ok_iff.1 h
  obtain ⟨precision, hprecision, h⟩ := bind_eq_ok_iff.1 h
  obtain ⟨limit, -, h⟩ := bind_eq_ok_iff.1 h
  cases h
  refine ⟨hengine, ?_, rfl⟩
  unfold checkPrecision at hprecision
  cases hdigits : r.precision with
  | none =>
    rw [hdigits] at hprecision
    exact (Except.ok.inj hprecision).symm
  | some digits =>
    rw [hdigits] at hprecision
    dsimp only at hprecision
    split_ifs at hprecision
    exact (Except.ok.inj hprecision).symm

/-- a request whose numbers make sense to the approximate pass: a tolerance within which zero is, where doubles are
compared by it, and no more digits than a double can count -/
structure Request.Sensible (r : Request) : Prop where
  tolerance : r.precision = none → Double.zero.le r.tolerance = true
  digits : ∀ digits, r.precision = some digits → (Arithmetic.binaryDigits? digits.toNat).isSome = true

/-- what a request that is not sensible may make solving fail with -/
inductive Request.Spoils (r : Request) : Fault → Prop where
  | tolerance (doubles : r.precision = none) (excludes : Double.zero.le r.tolerance = false) :
      Spoils r .divisionByZero
  | digits {digits : Int} (asked : r.precision = some digits)
      (uncounted : Arithmetic.binaryDigits? digits.toNat = none) : Spoils r .doubleOverflow

theorem Request.Sensible.not_spoils {r : Request} (h : r.Sensible) (fault : Fault) : ¬r.Spoils fault := by
  intro hspoils
  cases hspoils with
  | tolerance hdoubles hexcludes => cases hexcludes.symm.trans (h.tolerance hdoubles)
  | digits hasked huncounted =>
    have hcounted := h.digits _ hasked
    rw [huncounted] at hcounted
    cases hcounted

namespace Solver

variable {s : Solver} {settings : Settings}

theorem completed_congr {e e' : Effect} (hsolver : e'.solver = e.solver) (hfault : e'.fault = e.fault) :
    e'.completed.solver = e.completed.solver := by
  unfold Effect.completed
  rw [hfault]
  split_ifs
  · rw [hsolver]
  · exact hsolver

/-- of a hint, only where columns rest and the exchanges matter to the state -/
theorem solveBy_congr {pass pass' : Pass} {hint hint' : Hint} (h : pass s = .ok hint) (h' : pass' s = .ok hint')
    (hresting : hint'.resting = hint.resting) (hpivots : hint'.pivots = hint.pivots) :
    (s.solveBy pass').solver = (s.solveBy pass).solver := by
  unfold solveBy
  split_ifs
  · rfl
  · cases s.clash with
    | some clash => rfl
    | none =>
      unfold solvePasses
      simp only [h, h', hresting, hpivots]
      exact completed_congr rfl rfl

/-- the pass of an accepted request fails only in a way that the request explains -/
theorem approximate_spoiled {r : Request} (haccepted : Settings.ofRequest r = .ok settings)
    (hsimplex : r.engine = EngineChoice.simplex.word) (h : Reachable settings s) (engine : OutsideEngine) :
    Ends (fun hint => hint.warning = none ∨ hint = skippedPass s.passName .doubleOverflow) r.Spoils
      (s.approximate engine) := by
  obtain ⟨hengine, hprecision, htolerance⟩ := Settings.ofRequest_ok haccepted
  rw [hsimplex] at hengine
  have hsettings := settings_of_reachable h
  have hchoice : s.settings.engine = .simplex := hsettings ▸ (Except.ok.inj hengine).symm
  apply (approximate_ends (Rightful.of_reachable h).registered hchoice engine).imp (fun _ => id)
  intro fault hfails
  rw [hsettings] at hfails
  rcases hfails with ⟨rfl, hdigits⟩ | ⟨rfl, hdoubles, hnegative⟩
  · unfold Settings.hasDigits at hdigits
    rw [hprecision] at hdigits
    cases hasked : r.precision with
    | none =>
      rw [hasked] at hdigits
      cases hdigits
    | some digits =>
      rw [hasked] at hdigits
      exact .digits hasked (by simpa using hdigits)
  · refine .tolerance ?_ (htolerance ▸ hnegative)
    rw [hprecision] at hdoubles
    exact Option.map_eq_none_iff.1 hdoubles

/-- **Accepted settings are safe** where they are sensible. Whatever state calls have left, solving with the simplex of
this library does not fail and leaves an answer. The approximate pass gives a hint, or is skipped, and then solving
leaves what it leaves without any hint. A request that is not sensible fails in one way only, if at all: by a division
by zero over doubles whose tolerance excludes zero, or because a double cannot count the digits it asks for. -/
theorem accepted_is_safe {r : Request} (haccepted : Settings.ofRequest r = .ok settings)
    (hsimplex : r.engine = EngineChoice.simplex.word) (h : Reachable settings s) (engine : OutsideEngine) :
    (r.Sensible → (s.solve engine).fault = none ∧ (s.solve engine).solver.solved = true ∧
      ∃ hint, s.approximate engine = .ok hint ∧ (hint.warning = none ∨
        (hint = skippedPass s.passName .doubleOverflow ∧
          (s.solve engine).solver = (s.solveBy fun _ => .ok {}).solver))) ∧
    ∀ fault, (s.solve engine).fault = some fault → r.Spoils fault := by
  have hends := approximate_spoiled haccepted hsimplex h engine
  have hsolve := solveBy_cases (Rightful.of_reachable h).registered (·.approximate engine)
  constructor
  · intro hsensible
    obtain ⟨hint, hhint, hwarned⟩ := (hends.imp (fun _ => id) fun fault => hsensible.not_spoils fault).exists_ok
    have hanswered : (s.solve engine).fault = none ∧ (s.solve engine).solver.solved = true := by
      unfold solve
      rcases hsolve with ⟨hsolved, hsame⟩ | ⟨fault, hfault, -⟩ | ⟨hnone, s', -, -, hsolver⟩
      · rw [hsame]
        exact ⟨rfl, hsolved⟩
      · cases hhint.symm.trans hfault
      · rw [hsolver]
        exact ⟨hnone, rfl⟩
    refine ⟨hanswered.1, hanswered.2, hint, hhint, hwarned.imp id fun hskipped => ⟨hskipped, ?_⟩⟩
    subst hskipped
    exact solveBy_congr rfl hhint rfl rfl
  · intro fault hfault
    unfold solve at hfault
    rcases hsolve with ⟨-, hsame⟩ | ⟨fault', hpass, hfault', -⟩ | ⟨hnone, -⟩
    · rw [hsame] at hfault
      cases hfault
    · cases hfault'.symm.trans hfault
      have hpass : s.approximate engine = .error fault := hpass
      rw [hpass] at hends
      exact hends
    · cases hnone.symm.trans hfault

/-- a low limit, and evidence that is not checked -/
def coarse : Request := { engine := EngineChoice.simplex.word, pivotLimit := 7, verify := false }

def coarseSettings : Settings := { engine := .simplex, pivotLimit := 7, verify := false }

/-- a coefficient that no double can hold, in `x + 10 ^ 400 * y > 1` -/
def outsized : List Call :=
  [.addVar "x", .addVar "y",
    .addConstraint [(.number 1, .id 0), (.number (mkRat (Nat.pow 10 400) 1), .id 1)] ">" (.number 1)]

/-- the pass is skipped, with a warning, and solving goes on -/
theorem outsized_is_safe : Settings.ofRequest coarse = .ok coarseSettings ∧ coarse.Sensible ∧
    (((new coarseSettings).runCalls outsized).solve OutsideEngine.standIn).warnings.length = 1 ∧
    (((new coarseSettings).runCalls outsized).solve OutsideEngine.standIn).fault = none ∧
    (((new coarseSettings).runCalls outsized).solve OutsideEngine.standIn).solver.solved = true := by
  have hsensible : coarse.Sensible := ⟨fun _ => by decide +kernel, nofun⟩
  have hreachable := reachable_runCalls coarseSettings outsized
  obtain ⟨hfault, hsolved, -⟩ := (accepted_is_safe (r := coarse) rfl rfl hreachable OutsideEngine.standIn).1 hsensible
  exact ⟨rfl, hsensible, by decide +kernel, hfault, hsolved⟩

/-- a tolerance just below zero -/
def overstrict : Request :=
  { engine := EngineChoice.simplex.word, tolerance := Double.ofRat (mkRat (-1) (Nat.pow 10 9)) }

/-- `x + y ≥ 1`, then `x + y + z ≥ 2`; once `x` is exchanged, `y` cancels from the second row -/
def cancelling : List Call :=
  [.addVar "x", .addVar "y", .addVar "z",
    .addConstraint [(.number 1, .id 0), (.number 1, .id 1)] ">=" (.number 1),
    .addConstraint [(.number 1, .id 0), (.number 1, .id 1), (.number 1, .id 2)] ">=" (.number 2)]

/-- a finite tolerance that is accepted, and with which solving a satisfiable problem divides by zero: a coefficient
that cancelled does not count as zero -/
theorem negative_tolerance_fails : ∃ settings, Settings.ofRequest overstrict = .ok settings ∧
    overstrict.tolerance.isFinite = true ∧ Reachable settings ((new settings).runCalls cancelling) ∧
    (((new settings).runCalls cancelling).solve OutsideEngine.standIn).fault = some .divisionByZero ∧
    (((new settings).runCalls cancelling).solveBy fun _ => .ok {}).solver.verdict = .satisfiable :=
  ⟨{ engine := .simplex, tolerance := overstrict.tolerance }, rfl, by decide +kernel, reachable_runCalls _ cancelling,
    by decide +kernel, by decide +kernel⟩

end Solver

end Halfspace
