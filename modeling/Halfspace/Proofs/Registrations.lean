/-
What registrations alone settle.

Of the calls of a history only some register anything: those that add variables, and the constraints that are accepted
(`registrations`). They settle all of a state except its answers. Repeated on a new solver, whatever its settings as long
as its limit on digits is not stricter, they lead to the state that the history led to, as if it had never been asked
(`afresh`).
- `afresh_after`: one call;
- `runCalls_registrations`: any calls;
- `registrations_filter`: questions do not matter to what is accepted.
-/
import Halfspace.Proofs.Answers
import Halfspace.Proofs.DigitLimits

namespace Halfspace

namespace Solver

variable {s s' : Solver} {settings settings' : Settings}

/-! ## Registering calls -/

def registers (s : Solver) : Call → Bool
  | .addVar _ => true
  | .addConstraint terms relation rhs => (s.addConstraint terms relation rhs).isOk
  | _ => false

/-- the calls that register something -/
def registrations (s : Solver) : List Call → List Call
  | [] => []
  | c :: rest =>
    if s.registers c then c :: (s.after c).registrations rest else (s.after c).registrations rest

/-! ## Forgotten answers -/

/-- the same registrations in a solver with other settings that was never asked -/
def afresh (settings : Settings) (s : Solver) : Solver := { s.forget with settings := settings, pivots := 0 }

theorem afresh_register (s : Solver) (terms : LinearForm) (relation : Relation) (rhs : Rat) :
    (s.register terms relation rhs).afresh settings = (s.afresh settings).register terms relation rhs := by
  unfold register
  dsimp only [afresh, forget]
  split <;> rfl

theorem readTerm_of_lets {vars : Variables} {limit limit' : DigitLimit} (hlets : limit.Lets limit')
    {t : Numeral × VarRef} {u : Term} (h : readTerm vars limit t = .ok u) : readTerm vars limit' t = .ok u := by
  unfold readTerm at h ⊢
  split at h
  · cases h
  · obtain ⟨q, hq, h⟩ := bind_eq_ok_iff.1 h
    exact bind_eq_ok_iff.2 ⟨q, Numeral.value_of_lets hlets hq, h⟩

/-- a constraint that is accepted is accepted under a more generous limit, and registers the same -/
theorem afresh_addConstraint (hlets : s.settings.digitLimit.Lets settings.digitLimit)
    {terms : List (Numeral × VarRef)} {relation : String} {rhs : Numeral}
    (h : s.addConstraint terms relation rhs = .ok s') :
    (s.afresh settings).addConstraint terms relation rhs = .ok (s'.afresh settings) := by
  obtain ⟨rel, hrel, h⟩ := bind_eq_ok_iff.1 h
  obtain ⟨form, hform, h⟩ := bind_eq_ok_iff.1 h
  obtain ⟨q, hq, h⟩ := bind_eq_ok_iff.1 h
  have hform' : terms.mapM (readTerm s.vars settings.digitLimit) = .ok form :=
    mapM_eq_ok_iff.2 ((mapM_eq_ok_iff.1 hform).imp fun _ _ => readTerm_of_lets hlets)
  have hq' : rhs.value settings.digitLimit = .ok q := Numeral.value_of_lets hlets hq
  refine bind_eq_ok_iff.2 ⟨rel, hrel, bind_eq_ok_iff.2 ⟨form, hform', bind_eq_ok_iff.2 ⟨q, hq', ?_⟩⟩⟩
  rw [← Except.ok.inj h]
  exact congrArg Except.ok (afresh_register s form rel q).symm

/-- under the same limit no other constraints are accepted -/
theorem isOk_afresh (hlimit : settings.digitLimit = s.settings.digitLimit) (terms : List (Numeral × VarRef))
    (relation : String) (rhs : Numeral) :
    ((s.afresh settings).addConstraint terms relation rhs).isOk = (s.addConstraint terms relation rhs).isOk := by
  have hreadTerm : (s.afresh settings).settings.digitLimit = s.settings.digitLimit := hlimit
  unfold addConstraint
  rw [hreadTerm]
  cases Relation.read relation with
  | error fault => rfl
  | ok relation =>
    show Except.isOk (terms.mapM (readTerm s.vars s.settings.digitLimit) >>= fun terms => _) =
      Except.isOk (terms.mapM (readTerm s.vars s.settings.digitLimit) >>= fun terms => _)
    cases terms.mapM (readTerm s.vars s.settings.digitLimit) with
    | error fault => rfl
    | ok terms => cases rhs.value s.settings.digitLimit <;> rfl

theorem Concludes.afresh_eq (h : Concludes s s') : s'.afresh settings = s.afresh settings := by cases h <;> rfl

theorem afresh_solveBy (h : Registered s) (pass : Pass) :
    (s.solveBy pass).solver.afresh settings = s.afresh settings :=
  solveBy_keeps h pass (motive := fun s' => s'.afresh settings = s.afresh settings) rfl fun _ hconcludes _ =>
    hconcludes.afresh_eq

theorem exists_after_hint (s : Solver) (pass : Pass) :
    ∃ pivots, s.after (.hint pass) = { s with pivots := pivots } := by
  simp only [after]
  split
  · rename_i s' hint hs'
    obtain ⟨found, -, hfound⟩ := bind_eq_ok_iff.1 hs'
    exact ⟨_, (Prod.mk.inj (Except.ok.inj hfound)).1.symm⟩
  · exact ⟨s.pivots, rfl⟩

theorem exists_after_tellModel (s : Solver) : ∃ model, s.after .tellModel = { s with model := model } := by
  simp only [after]
  split
  · rename_i s' values hs'
    exact ⟨some values, (tellModel_ok hs').2.2⟩
  · exact ⟨s.model, rfl⟩

/-- **One call.** A registration does to a solver that was never asked what it does to any; other calls change answers
only. -/
theorem afresh_after (h : Registered s) (hlets : s.settings.digitLimit.Lets settings.digitLimit) (c : Call) :
    (s.after c).afresh settings = if s.registers c then (s.afresh settings).after c else s.afresh settings := by
  cases c with
  | addVar name => rfl
  | addConstraint terms relation rhs =>
    cases hs : s.addConstraint terms relation rhs with
    | error fault =>
      simp only [after, registers, hs]
      rfl
    | ok s' =>
      simp only [after, registers, hs, afresh_addConstraint hlets hs]
      rfl
  | solve pass => exact afresh_solveBy h pass
  | hint pass =>
    obtain ⟨pivots, hs'⟩ := s.exists_after_hint pass
    rw [hs']
    rfl
  | tellModel =>
    obtain ⟨model, hs'⟩ := s.exists_after_tellModel
    rw [hs']
    rfl
  | inspect => rfl

/-- **Any calls.** -/
theorem runCalls_registrations (h : Rightful s) (hlets : s.settings.digitLimit.Lets settings.digitLimit)
    (calls : List Call) :
    (s.afresh settings).runCalls (s.registrations calls) = (s.runCalls calls).afresh settings := by
  induction calls generalizing s with
  | nil => rfl
  | cons c rest ih =>
    have hkept := (follows_frame h.registered (follows_after s c)).1
    have hnext := ih (h.follows (follows_after s c)) (hkept ▸ hlets)
    have hstep := afresh_after h.registered hlets c
    unfold registrations
    split_ifs with hregisters
    · rw [if_pos hregisters] at hstep
      show ((s.afresh settings).after c).runCalls _ = ((s.after c).runCalls rest).afresh settings
      rw [← hstep]
      exact hnext
    · rw [if_neg hregisters] at hstep
      rw [← hstep]
      exact hnext

theorem afresh_runCalls (hlets : settings.digitLimit.Lets settings'.digitLimit) (calls : List Call) :
    ((new settings).runCalls calls).afresh settings' =
      (new settings').runCalls ((new settings).registrations calls) :=
  (runCalls_registrations (rightful_new settings) hlets calls).symm

/-! ## Histories with the same registrations -/

def isRegistration : Call → Bool
  | .addVar _ => true
  | .addConstraint _ _ _ => true
  | _ => false

theorem registers_afresh (hlimit : settings.digitLimit = s.settings.digitLimit) (c : Call) :
    (s.afresh settings).registers c = s.registers c := by
  cases c with
  | addConstraint terms relation rhs => exact isOk_afresh hlimit terms relation rhs
  | _ => rfl

/-- a call that asks to register something does the same to a solver that was never asked -/
theorem after_afresh (h : Registered s) (hlimit : settings.digitLimit = s.settings.digitLimit) {c : Call}
    (hc : isRegistration c = true) : (s.afresh settings).after c = (s.after c).afresh settings := by
  rw [afresh_after h (hlimit ▸ .refl _)]
  split_ifs with hregisters
  · rfl
  · cases c with
    | addVar name => exact absurd rfl hregisters
    | addConstraint terms relation rhs =>
      have hrefused := isOk_afresh hlimit terms relation rhs
      cases hs : (s.afresh settings).addConstraint terms relation rhs with
      | error fault => simp only [after, hs]
      | ok s' =>
        rw [hs] at hrefused
        exact absurd hrefused.symm hregisters
    | _ => cases hc

/-- **Questions.** What was asked in between does not matter to what is accepted. -/
theorem registrations_filter (h : Rightful s) (hlimit : settings.digitLimit = s.settings.digitLimit)
    (calls : List Call) :
    (s.afresh settings).registrations (calls.filter isRegistration) = s.registrations calls := by
  induction calls generalizing s with
  | nil => rfl
  | cons c rest ih =>
    have hkept := (follows_frame h.registered (follows_after s c)).1
    have hnext := ih (h.follows (follows_after s c)) (hlimit.trans (by rw [hkept]))
    by_cases hc : isRegistration c = true
    · rw [List.filter_cons_of_pos hc]
      unfold registrations
      rw [registers_afresh hlimit, after_afresh h.registered hlimit hc, hnext]
    · have hregisters : ¬s.registers c = true := by cases c <;> simp_all [registers, isRegistration]
      have hlets : s.settings.digitLimit.Lets settings.digitLimit := hlimit ▸ .refl _
      have hstep := afresh_after h.registered hlets c
      rw [if_neg hregisters] at hstep
      rw [List.filter_cons_of_neg hc, ← hstep, hnext, registrations, if_neg hregisters]

theorem registrations_eq_of_filter {calls calls' : List Call} (hlimit : settings.digitLimit = settings'.digitLimit)
    (h : calls.filter isRegistration = calls'.filter isRegistration) :
    (new settings).registrations calls = (new settings').registrations calls' := by
  calc (new settings).registrations calls
    _ = ((new settings).afresh settings).registrations (calls.filter isRegistration) :=
      (registrations_filter (rightful_new settings) rfl calls).symm
    _ = ((new settings').afresh settings).registrations (calls'.filter isRegistration) := by rw [h]; rfl
    _ = (new settings').registrations calls' := registrations_filter (rightful_new settings') hlimit calls'

/-- histories with the same registrations have the same constraints -/
theorem constraints_eq_of_registrations {calls calls' : List Call}
    (h : (new settings).registrations calls = (new settings').registrations calls') :
    ((new settings).runCalls calls).constraints = ((new settings').runCalls calls').constraints := by
  have hlets : ∀ limit : DigitLimit, limit.Lets ({} : Settings).digitLimit := DigitLimit.lets_none
  calc ((new settings).runCalls calls).constraints
    _ = (((new settings).runCalls calls).afresh {}).constraints := rfl
    _ = (((new settings').runCalls calls').afresh {}).constraints := by
      rw [afresh_runCalls (hlets _), afresh_runCalls (hlets _), h]
    _ = ((new settings').runCalls calls').constraints := rfl

end Solver

end Halfspace
