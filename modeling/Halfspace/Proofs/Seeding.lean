/-
Starts that lose nothing.

A resting proposes a start for the columns outside the first basis, and every value that it proposes is one at which a
column may rest (`Span.Rests`): its low bound, its upper bound, or zero when it has neither. Such values are within the
bounds, unless these are crossed, so that the engine takes all of them over. From then on every exchange puts the leaving
column on the bound that it violated, and a column without bounds violates none. So the columns outside the basis rest
wherever a run ends, and their places can be read off again:
- `seeded_start`: a start from a resting, right or wrong;
- `rested_exchange`, `run_rested`: columns outside the basis rest after one exchange, and after every run;
- `Rested.exists_resting`: what is read off a feasible run;
- `seeds_kept`: the exact problem of a state without a contradiction, from any resting.
-/
import Halfspace.Proofs.Answers
import Halfspace.Proofs.Engine.Outcomes

namespace Halfspace

open Keyed

/-- a value at which a column may rest -/
inductive Span.Rests (s : Span Delta) (v : Delta) : Prop where
  | low (h : s.low = some v)
  | upper (h : s.upper = some v)
  | free (hlow : s.low = none) (hupper : s.upper = none) (hzero : v = Delta.zero)

theorem get?_foldl_put {α : Type} (f : Nat → Option α) (n : Nat) (k : Int) :
    ((List.range n).foldl (fun (m : Keyed α) j => (f j).elim m (m.put j)) Keyed.empty).get? k =
      if 0 ≤ k ∧ k < n then f k.toNat else none := by
  induction n with
  | zero =>
    rw [if_neg (by omega)]
    rfl
  | succ n ih =>
    rw [List.range_succ, List.foldl_append, List.foldl_cons, List.foldl_nil]
    by_cases hk : k = n
    · subst hk
      rw [if_pos (by omega), Int.toNat_natCast]
      cases hf : f n with
      | none => exact ih.trans (if_neg (by omega))
      | some a => exact (get?_put _ _ _ _).trans (if_pos rfl)
    · have hsame : (0 ≤ k ∧ k < ((n + 1 : Nat) : Int)) ↔ 0 ≤ k ∧ k < n := by omega
      simp only [hsame, ← ih]
      cases hf : f n with
      | none => rfl
      | some a => exact (get?_put _ _ _ _).trans (if_neg hk)

/-! ## What a resting proposes -/

namespace Resting

variable {K V : Type}

theorem get?_start (A : Arithmetic K V) (p : Problem K V) (resting : Resting) (j : Int) :
    (start A p resting).get? j =
      if (0 ≤ j ∧ j < p.width) ∧ j ∉ p.basis then some (proposal A p resting j) else none := by
  have hfold : start A p resting = (List.range p.width).foldl (fun (m : Keyed V) (j : Nat) =>
      (if p.basis.contains (j : Int) then none else some (proposal A p resting j)).elim m (m.put j)) Keyed.empty := by
    unfold start
    congr 1
    funext m j
    split_ifs <;> rfl
  rw [hfold, get?_foldl_put fun j => if p.basis.contains (j : Int) then none else some (proposal A p resting j)]
  by_cases hj : 0 ≤ j ∧ j < p.width
  · by_cases hbasic : j ∈ p.basis <;> simp [hj, hbasic, Int.toNat_of_nonneg hj.1]
  · rw [if_neg hj, if_neg fun h => hj h.1]

/-- places are read off a feasible run for the columns outside its basis, each from its value -/
theorem exists_ofRun {A : Arithmetic K V} {p : Problem K V} {r : Run K V} {values : List V} {basis : List Int}
    (hfeasible : r.outcome = .feasible) (hvalues : r.values = some values) (hbasis : r.basis = some basis)
    (hlength : values.length = p.width) :
    ∃ resting, ofRun A p r = .ok resting ∧ ∀ j : Int, resting.get? j =
      if (0 ≤ j ∧ j < p.width) ∧ j ∉ basis then placeOf? A (p.span j) (Simplex.look A values j) else none := by
  set place? : Nat → Option Place := fun j =>
    if basis.contains (j : Int) then none else placeOf? A (p.span j) (Simplex.look A values j) with hplace?
  refine ⟨(List.range p.width).foldl (fun m j => (place? j).elim m (Keyed.put m j)) Keyed.empty, ?_, fun j => ?_⟩
  · unfold ofRun
    rw [hfeasible, hvalues, hbasis]
    refine foldlM_ok (fun resting j hj => ?_) _
    have hlt : j < values.length := hlength ▸ List.mem_range.1 hj
    have hlook : values[j]? = some (Simplex.look A values j) := by
      simp [Simplex.look, fetch?_natCast hlt, List.getElem?_eq_getElem hlt]
    rw [Option.getD_some, hplace?, hlook]
    dsimp only
    split_ifs
    · rfl
    · cases placeOf? A (p.span j) (Simplex.look A values j) <;> rfl
  · rw [get?_foldl_put]
    by_cases hj : 0 ≤ j ∧ j < p.width
    · by_cases hbasic : j ∈ basis <;> simp [hplace?, hj, hbasic, Int.toNat_of_nonneg hj.1]
    · rw [if_neg hj, if_neg fun h => hj h.1]

variable {p : Problem Rat Delta} {resting : Resting} {j : Int} {place : Place} {v : Delta}

theorem rests_of_valueAt (h : valueAt Arithmetic.exact p j place = some v) : (p.span j).Rests v := by
  cases place with
  | low => exact .low h
  | upper => exact .upper h
  | zero =>
    unfold valueAt at h
    split_ifs at h with hfree
    obtain ⟨hlow, hupper⟩ := Bool.and_eq_true_iff.1 hfree
    exact .free (Option.isNone_iff_eq_none.1 hlow) (Option.isNone_iff_eq_none.1 hupper) (Option.some.inj h).symm

theorem rests_restingValue (p : Problem Rat Delta) (j : Int) : (p.span j).Rests (p.restingValue Arithmetic.exact j) := by
  unfold Problem.restingValue
  cases hlow : (p.span j).low with
  | some l => exact .low hlow
  | none =>
    cases hupper : (p.span j).upper with
    | some u => exact .upper hupper
    | none => exact .free hlow hupper rfl

/-- a column without a place, or with one that does not exist, rests where it would without a hint -/
theorem rests_proposal (p : Problem Rat Delta) (resting : Resting) (j : Int) :
    (p.span j).Rests (proposal Arithmetic.exact p resting j) := by
  unfold proposal
  cases hplace : (resting.get? j).bind (valueAt Arithmetic.exact p j) with
  | none => exact rests_restingValue p j
  | some v =>
    obtain ⟨place, -, hv⟩ := Option.bind_eq_some_iff.1 hplace
    exact rests_of_valueAt hv

/-! ## Places of values -/

theorem same_iff (v w : Delta) : Arithmetic.exact.same v w = true ↔ v = w := by
  rw [Arithmetic.same, Bool.and_eq_true_iff]
  simp only [Arithmetic.exact_less, Arithmetic.exact_greater, Bool.not_eq_true', decide_eq_false_iff_not, not_lt]
  exact ⟨fun h => le_antisymm h.2 h.1, fun h => ⟨h.ge, h.le⟩⟩

theorem any_same_iff (bound : Option Delta) (v : Delta) :
    bound.any (Arithmetic.exact.same v) = true ↔ bound = some v := by
  cases bound with
  | none => simp
  | some l => rw [Option.any_some, same_iff, Option.some.injEq, eq_comm]

theorem vanishes_iff (v : Delta) : Arithmetic.exact.vanishes v = true ↔ v = Delta.zero := decide_eq_true_iff

/-- a column is at the place that is read off its value -/
theorem valueAt_of_placeOf? (h : placeOf? Arithmetic.exact (p.span j) v = some place) :
    valueAt Arithmetic.exact p j place = some v := by
  unfold placeOf? at h
  split_ifs at h with hlow hupper hfree
  · cases h
    exact (any_same_iff _ _).1 hlow
  · cases h
    exact (any_same_iff _ _).1 hupper
  · cases h
    obtain ⟨hunbounded, hzero⟩ := Bool.and_eq_true_iff.1 hfree
    exact (if_pos hunbounded).trans (congrArg some ((vanishes_iff v).1 hzero).symm)

theorem exists_placeOf? (h : (p.span j).Rests v) : ∃ place, placeOf? Arithmetic.exact (p.span j) v = some place := by
  unfold placeOf?
  cases h with
  | low h => exact ⟨.low, if_pos ((any_same_iff _ _).2 h)⟩
  | upper h =>
    rw [if_pos (c := (p.span j).upper.any _ = true) ((any_same_iff _ _).2 h)]
    split_ifs
    · exact ⟨.low, rfl⟩
    · exact ⟨.upper, rfl⟩
  | free hlow hupper hzero => exact ⟨.zero, by simp [hlow, hupper, (vanishes_iff v).2 hzero]⟩

end Resting

namespace Simplex

variable {p : Problem Rat Delta} {s s' : State Rat Delta} {b j : Int} {side : Breach} {row : Row Rat} {a : Rat}

/-! ## The start -/

/-- the values at which a column may rest are within its bounds, unless these are crossed -/
theorem contains_of_rests (hp : p.Regular) {v : Delta} (h : (p.span j).Rests v) : (p.span j).Contains v := by
  cases h with
  | low h => exact contains_of_settles hp (Or.inr (Or.inl h))
  | upper h => exact contains_of_settles hp (Or.inr (Or.inr h))
  | free hlow hupper hzero => exact ⟨by simp [hlow], by simp [hupper]⟩

/-- a start from a resting, with a value for every column outside the basis, which the engine takes over as it is -/
structure Seeded (p : Problem Rat Delta) (resting : Resting) (start : Keyed Delta) : Prop where
  proposed : ∀ j, start.contains j = true ↔ (0 ≤ j ∧ j < p.width) ∧ j ∉ p.basis
  /-- a place that the column has is taken -/
  placed : ∀ j place v, start.contains j = true → resting.get? j = some place →
    Resting.valueAt Arithmetic.exact p j place = some v → start.get? j = some v
  rests : ∀ j v, start.get? j = some v → (p.span j).Rests v
  within : ∀ j v, start.get? j = some v → (p.span j).Contains v
  /-- the first state of a run has the proposed values -/
  kept : ∃ first, initial Arithmetic.exact p start = .ok first ∧ ∀ j v, start.get? j = some v → first.at j = v

/-- **Starts.** Whatever places a resting gives, the engine takes over the start that it proposes. -/
theorem seeded_start (hp : p.Regular) (resting : Resting) : Seeded p resting (resting.start Arithmetic.exact p) := by
  have hvalue : ∀ {j v}, (resting.start Arithmetic.exact p).get? j = some v →
      ((0 ≤ j ∧ j < p.width) ∧ j ∉ p.basis) ∧ resting.proposal Arithmetic.exact p j = v := by
    intro j v hv
    rw [Resting.get?_start] at hv
    split_ifs at hv with hj
    exact ⟨hj, Option.some.inj hv⟩
  have hrests : ∀ j v, (resting.start Arithmetic.exact p).get? j = some v → (p.span j).Rests v := by
    intro j v hv
    obtain ⟨-, rfl⟩ := hvalue hv
    exact Resting.rests_proposal p resting j
  obtain ⟨first, hfirst, -, hstart⟩ := initial_spec hp.toFramed (resting.start Arithmetic.exact p)
  refine ⟨fun j => ?_, fun j place v hj hplace hv => ?_, hrests, fun j v hv => contains_of_rests hp (hrests j v hv),
    first, hfirst, fun j v hv => ?_⟩
  · unfold contains
    rw [Resting.get?_start]
    split_ifs with hj <;> simp [hj]
  · obtain ⟨w, hw⟩ := Option.isSome_iff_exists.1 hj
    obtain ⟨-, hproposal⟩ := hvalue hw
    rw [hw, ← hproposal]
    unfold Resting.proposal
    rw [hplace, Option.bind_some, hv, Option.getD_some]
  · obtain ⟨⟨hj, hjn⟩, -⟩ := hvalue hv
    have hwithin : p.within Arithmetic.exact j v = true := Problem.within_iff.2 (contains_of_rests hp (hrests j v hv))
    rw [hstart j hj (mt (mem_keys_initial hp.toFramed hfirst j).1 hjn)]
    unfold startValue
    rw [hv]
    exact if_pos hwithin

/-! ## Runs -/

def Rested (p : Problem Rat Delta) (s : State Rat Delta) : Prop :=
  ∀ j : Int, 0 ≤ j ∧ j < p.width → j ∉ s.tableau.keys → (p.span j).Rests (s.at j)

/-- **One exchange.** The leaving column comes to rest on the bound that it violated, and the other columns outside the
basis stay. -/
theorem rested_exchange (h : Sound p s) (m : Moves p s b j side row a)
    (hex : exchange Arithmetic.exact s b j a (target Arithmetic.exact p b side) = .ok s') (hr : Rested p s) :
    Rested p s' := by
  have hbound := (breach?_eq_some m.breach).1
  have htarget : (p.span b).Rests (target Arithmetic.exact p b side) := by
    cases side with
    | belowLow => exact .low hbound
    | aboveUpper => exact .upper hbound
  exact fun _ => outside_exchange h m hex (P := fun k v => (p.span k).Rests v) htarget hr

theorem Path.rested {es : List (Int × Int)} (hpath : Path p s es s') (h : Sound p s) (hr : Rested p s) :
    Rested p s' := by
  induction hpath with
  | nil => exact hr
  | cons m hex _ ih => exact ih (sound_exchange h m hex) (rested_exchange h m hex hr)

/-- **Runs.** From a start at which columns rest, the columns outside the basis rest in the reported state, whatever the
outcome is. -/
theorem run_rested (hp : p.Regular) {resting : Resting} {start : Keyed Delta} (hstart : Seeded p resting start)
    (limit : Int) :
    ∃ s r, Simplex.run Arithmetic.exact p start limit = .ok r ∧ Reports p s r ∧ Rested p s := by
  obtain ⟨first, es, s, r, hfirst, hr, hpath, hend⟩ := run_path hp.toFramed start limit
  obtain ⟨first', hfirst', hsound, hvalues⟩ := initial_spec hp.toFramed start
  cases hfirst.symm.trans hfirst'
  have hrested : Rested p first := by
    intro j hj hjn
    have hbasis : j ∉ p.basis := mt (mem_keys_initial hp.toFramed hfirst j).2 hjn
    obtain ⟨v, hv⟩ := Option.isSome_iff_exists.1 ((hstart.proposed j).2 ⟨hj, hbasis⟩)
    obtain ⟨first', hfirst', hkept⟩ := hstart.kept
    cases hfirst.symm.trans hfirst'
    exact hkept j v hv ▸ hstart.rests j v hv
  have hreports := hpath.reports hsound (settled_of_start hvalues) (length_keys_initial hp.toFramed hfirst) hend
  exact ⟨s, r, hr, hreports, hpath.rested hsound hrested⟩

/-! ## Reading places off -/

/-- places of exactly the columns outside a basis, each with the value of the column there -/
structure Retells (p : Problem Rat Delta) (values : List Delta) (basis : List Int) (resting : Resting) : Prop where
  covers : ∀ j, resting.contains j = true ↔ (0 ≤ j ∧ j < p.width) ∧ j ∉ basis
  value : ∀ j place, resting.get? j = some place →
    Resting.valueAt Arithmetic.exact p j place = some (look Arithmetic.exact values j)

/-- the places that are read off a feasible run whose columns outside the basis rest -/
theorem Rested.exists_resting {r : Run Rat Delta} (h : Rested p s) (hreports : Reports p s r)
    (hfeasible : r.outcome = .feasible) :
    ∃ read, Resting.ofRun Arithmetic.exact p r = .ok read ∧ Retells p s.values s.tableau.sortedKeys read := by
  obtain ⟨read, hread, hget⟩ :=
    Resting.exists_ofRun (A := Arithmetic.exact) hfeasible hreports.values hreports.basis hreports.sound.length
  refine ⟨read, hread, fun j => ?_, fun j place hplace => ?_⟩
  · unfold contains
    rw [hget]
    split_ifs with hj
    · obtain ⟨place, hplace⟩ := Resting.exists_placeOf? (h j hj.1 fun hmem => hj.2 (mem_sortedKeys.2 hmem))
      exact iff_of_true (Option.isSome_iff_exists.2 ⟨place, hplace⟩) hj
    · exact iff_of_false Bool.false_ne_true hj
  · rw [hget] at hplace
    split_ifs at hplace
    exact Resting.valueAt_of_placeOf? hplace

end Simplex

namespace Solver

variable {s : Solver} {settings : Settings}

/-! ## Reachable states -/

/-- **Seeds are kept.** Take the exact problem of a reachable state without a contradiction and any resting. The start
that it proposes has a resting value within the bounds for every column outside the first basis, that of the given place
where the column has it, and the engine takes all of them over. After the run, whatever its limit and its outcome are,
every column outside the basis rests; and after a feasible run a place is read off for exactly these columns, with the
value of the column there. -/
theorem seeds_kept (h : Reachable settings s) (hclash : s.clashed = false) (resting : Resting) (limit : Int) :
    ∃ a r values basis, s.assemble Arithmetic.exact = .ok a ∧
      Simplex.Seeded a.problem resting (resting.start Arithmetic.exact a.problem) ∧
      Simplex.run Arithmetic.exact a.problem (resting.start Arithmetic.exact a.problem) limit = .ok r ∧
      r.values = some values ∧ r.basis = some basis ∧
      (∀ j : Int, 0 ≤ j ∧ j < a.problem.width → j ∉ basis →
        (a.problem.span j).Rests (Simplex.look Arithmetic.exact values j)) ∧
      (r.outcome = .feasible → ∃ read, Resting.ofRun Arithmetic.exact a.problem r = .ok read ∧
        Simplex.Retells a.problem values basis read) := by
  have hregistered := (Rightful.of_reachable h).registered
  obtain ⟨a, hassemble, ha⟩ := assemble_spec hregistered
  have hregular : a.problem.Regular := ha.regular hregistered (clash_eq_none_iff.2 hclash)
  have hseeded := Simplex.seeded_start hregular resting
  obtain ⟨t, r, hr, hreports, hrested⟩ := Simplex.run_rested hregular hseeded limit
  refine ⟨a, r, t.values, t.tableau.sortedKeys, hassemble, hseeded, hr, hreports.values, hreports.basis, ?_, ?_⟩
  · intro j hj hjn
    exact hrested j hj fun hmem => hjn (mem_sortedKeys.2 hmem)
  · exact hrested.exists_resting hreports

/-- `x + y ≥ 3` and `x - z ≤ 2` with `y < 1` and `z = 1`; nothing bounds `x` -/
def tilted : List Call :=
  [.addVar "x", .addVar "y", .addVar "z", .addConstraint [(.number 1, .id 0), (.number 1, .id 1)] ">=" (.number 3),
    .addConstraint [(.number 1, .id 0), (.number (-1), .id 2)] "<=" (.number 2),
    .addConstraint [(.number 1, .id 1)] "<" (.number 1), .addConstraint [(.number 2, .id 2)] "=" (.number 2)]

/-- places that `x` and `y` do not have, one that `z` has, and one of no column -/
def askew : Resting := ofList [(0, .low), (1, .zero), (2, .upper), (9, .low)]

/-- after an exchange `x` is basic, `x + y` rests on its bound, and a place is read off for it instead -/
theorem tilted_keeps_seeds : ((new {}).runCalls tilted).clashed = false ∧
    ∃ a r values read, ((new {}).runCalls tilted).assemble Arithmetic.exact = .ok a ∧
      Simplex.Seeded a.problem askew (askew.start Arithmetic.exact a.problem) ∧
      Simplex.run Arithmetic.exact a.problem (askew.start Arithmetic.exact a.problem) 9 = .ok r ∧
      r.outcome = .feasible ∧ r.pivots = 1 ∧ r.values = some values ∧
      Resting.ofRun Arithmetic.exact a.problem r = .ok read ∧ Simplex.Retells a.problem values [0, 4] read := by
  have hclash : ((new {}).runCalls tilted).clashed = false := by decide +kernel
  obtain ⟨a, r, values, basis, hassemble, hseeded, hr, hvalues, hbasis, -, hretells⟩ :=
    seeds_kept (reachable_runCalls {} tilted) hclash askew 9
  have hreport : (((new {}).runCalls tilted).assemble Arithmetic.exact >>= fun a =>
      (Simplex.run Arithmetic.exact a.problem (askew.start Arithmetic.exact a.problem) 9).map
        fun r => (r.outcome, r.pivots, r.basis)) = .ok (.feasible, 1, some [0, 4]) := by decide +kernel
  obtain ⟨a', hassemble', hreport⟩ := bind_eq_ok_iff.1 hreport
  cases hassemble.symm.trans hassemble'
  rw [hr] at hreport
  obtain ⟨houtcome, hrest⟩ := Prod.mk.inj (Except.ok.inj hreport)
  obtain ⟨hpivots, hbasis'⟩ := Prod.mk.inj hrest
  cases hbasis.symm.trans hbasis'
  obtain ⟨read, hread, htells⟩ := hretells houtcome
  exact ⟨hclash, a, r, values, read, hassemble, hseeded, hr, houtcome, hpivots, hvalues, hread, htells⟩

end Solver

end Halfspace
