/-
What one step of the exact engine does.

`Sound p s` is the invariant of a run: values and tableau fit the problem, the values solve the tableau, and the
tableau has the solutions of the problem. `Settled p s` adds that the columns outside the basis lie within their bounds or
on one of them; they are all within (`Inside p s`) as long as no column has crossed bounds. A breach is treated once for
both sides by its sign: a column below its low bound has to move up, one above its upper bound down.
- `step_cases`: a step of a sound state never fails. It stops because all basic columns are within their bounds, stops
  because no column of the violated row can repair it (`Stuck`), or exchanges two columns (`Moves`);
- `value_exchange_nonbasic`, `value_exchange_leaving`: outside the basis the entering column alone moves, and the
  leaving column ends on its bound;
- `sound_exchange`, `outside_exchange`, `settled_exchange`: an exchange keeps both invariants;
- `not_canRepair_of_crossed`: a column that stands on a crossed bound can move neither way.
-/
import Halfspace.Proofs.Engine.Pivot
import Halfspace.Proofs.Engine.Values

namespace Halfspace

open Keyed

/-- the bounds of a column leave a value in place -/
def Span.Contains (s : Span Delta) (v : Delta) : Prop :=
  (∀ l, s.low = some l → l ≤ v) ∧ ∀ u, s.upper = some u → v ≤ u

/-- a value that the bounds of a column leave in place, or one of these bounds, which may be crossed -/
def Span.Settles (s : Span Delta) (v : Delta) : Prop := s.Contains v ∨ s.low = some v ∨ s.upper = some v

/-- the bound that holds back a column with a weight -/
def Span.holding (s : Span Delta) (w : Rat) : Option Delta := if 0 < w then s.upper else s.low

theorem Span.smul_le_holding {s : Span Delta} {w : Rat} {v g : Delta} (hg : s.holding w = some g)
    (hv : s.Contains v) : w • v ≤ w • g := by
  unfold Span.holding at hg
  split_ifs at hg with hpos
  · exact smul_le_smul_of_nonneg_left (hv.2 g hg) hpos.le
  · exact smul_le_smul_of_nonpos_left (hv.1 g hg) (not_lt.1 hpos)

theorem Problem.span_cases {K V : Type} (p : Problem K V) (j : Int) : p.span j ∈ p.spans ∨ p.span j = Span.free := by
  unfold Problem.span
  cases h : fetch? p.spans j with
  | none => exact Or.inr rfl
  | some s =>
    obtain ⟨i, -, hi⟩ := Option.bind_eq_some_iff.1 h
    exact Or.inl (List.mem_of_getElem? hi)

theorem Problem.Regular.ordered_at {p : Problem Rat Delta} (hp : p.Regular) {j : Int} {l u : Delta}
    (hl : (p.span j).low = some l) (hu : (p.span j).upper = some u) : l ≤ u := by
  rcases p.span_cases j with h | h
  · exact hp.ordered _ h l u hl hu
  · rw [h] at hl
    cases hl

namespace Simplex

variable {p : Problem Rat Delta} {s s' : State Rat Delta} {b j : Int} {side : Breach} {row : Row Rat} {a : Rat}

abbrev State.at (s : State Rat Delta) (j : Int) : Delta := s.value Arithmetic.exact j

/-- the direction in which a violated column has to move -/
def Breach.sign : Breach → Rat
  | .belowLow => 1
  | .aboveUpper => -1

theorem Breach.sign_ne_zero (side : Breach) : side.sign ≠ 0 := by cases side <;> norm_num [Breach.sign]

def Breach.bound (side : Breach) (sp : Span Delta) : Option Delta :=
  match side with
  | .belowLow => sp.low
  | .aboveUpper => sp.upper

/-! ## Breaches -/

theorem breach?_eq_none_iff : breach? Arithmetic.exact p s b = none ↔ (p.span b).Contains (s.at b) := by
  unfold breach? Span.Contains
  cases (p.span b).low with
  | none => cases (p.span b).upper <;> simp
  | some l =>
    cases (p.span b).upper with
    | none => simp
    | some u =>
      by_cases hl : s.at b < l
      · simp [hl]
      · simpa [hl] using fun _ => not_lt.1 hl

/-- a violated column is on the wrong side of the bound onto which it will be moved -/
theorem breach?_eq_some (h : breach? Arithmetic.exact p s b = some side) :
    side.bound (p.span b) = some (target Arithmetic.exact p b side) ∧
      0 < side.sign • (target Arithmetic.exact p b side - s.at b) := by
  unfold breach? at h
  split_ifs at h with h1 h2
  · obtain ⟨l, hl, hlt⟩ := (Option.any_eq_true _ _).1 h1
    have hlt : s.at b < l := by simpa using hlt
    cases h
    exact ⟨by simp [Breach.bound, target, hl], by simpa [target, hl, Breach.sign] using hlt⟩
  · obtain ⟨u, hu, hlt⟩ := (Option.any_eq_true _ _).1 h2
    have hlt : u < s.at b := by simpa using hlt
    cases h
    exact ⟨by simp [Breach.bound, target, hu], by simpa [target, hu, Breach.sign] using hlt⟩

theorem Breach.nonneg_of_contains {sp : Span Delta} {v g : Delta} (hc : sp.Contains v)
    (hg : side.bound sp = some g) : 0 ≤ side.sign • (v - g) := by
  cases side with
  | belowLow =>
    have := hc.1 g hg
    simpa [Breach.sign] using this
  | aboveUpper =>
    have := hc.2 g hg
    simpa [Breach.sign] using this

theorem settles_target (h : breach? Arithmetic.exact p s b = some side) :
    (p.span b).Settles (target Arithmetic.exact p b side) := by
  have hbound := (breach?_eq_some h).1
  cases side with
  | belowLow => exact Or.inr (Or.inl hbound)
  | aboveUpper => exact Or.inr (Or.inr hbound)

/-- the bounds of a regular problem are themselves within the bounds -/
theorem contains_of_settles (hp : p.Regular) {v : Delta} (h : (p.span j).Settles v) : (p.span j).Contains v := by
  rcases h with h | hlow | hupper
  · exact h
  · exact ⟨fun l hl => (Option.some.inj (hl.symm.trans hlow)).le, fun u hu => hp.ordered_at hlow hu⟩
  · exact ⟨fun l hl => hp.ordered_at hl hupper, fun u hu => (Option.some.inj (hupper.symm.trans hu)).le⟩

/-! ## Repairs -/

theorem canIncrease_iff : canIncrease Arithmetic.exact p s j = true ↔ ∀ u, (p.span j).upper = some u → s.at j < u := by
  unfold canIncrease
  cases (p.span j).upper <;> simp

theorem canDecrease_iff : canDecrease Arithmetic.exact p s j = true ↔ ∀ l, (p.span j).low = some l → l < s.at j := by
  unfold canDecrease
  cases (p.span j).low <;> simp

theorem canRepair_iff : canRepair Arithmetic.exact p s side a j = true ↔
    (0 < side.sign * a ∧ canIncrease Arithmetic.exact p s j = true) ∨
      (side.sign * a < 0 ∧ canDecrease Arithmetic.exact p s j = true) := by
  rcases lt_trichotomy a 0 with ha | rfl | ha
  · cases side <;> simp [canRepair, Breach.sign, ha, ha.ne, ha.not_gt]
  · simp [canRepair]
  · cases side <;> simp [canRepair, Breach.sign, ha, ha.ne', ha.not_gt]

/-- a column that stands on a crossed bound can move neither way -/
theorem not_canRepair_of_crossed (h : (p.span j).Settles (s.at j)) (hout : ¬(p.span j).Contains (s.at j)) :
    ¬canRepair Arithmetic.exact p s side a j = true := by
  rw [canRepair_iff, canIncrease_iff, canDecrease_iff]
  rcases h with h | hlow | hupper
  · exact absurd h hout
  · rintro (⟨-, hup⟩ | ⟨-, hdown⟩)
    · exact hout ⟨fun l hl => (Option.some.inj (hl.symm.trans hlow)).le, fun u hu => (hup u hu).le⟩
    · exact lt_irrefl _ (hdown _ hlow)
  · rintro (⟨-, hup⟩ | ⟨-, hdown⟩)
    · exact lt_irrefl _ (hup _ hupper)
    · exact hout ⟨fun l hl => (hdown l hl).le, fun u hu => (Option.some.inj (hupper.symm.trans hu)).le⟩

/-- a column that cannot repair is held back by its bound, and its weighted value has reached that bound -/
theorem holding_of_not_repairs (h : canRepair Arithmetic.exact p s side a j = false) (ha : a ≠ 0) :
    ∃ g, (p.span j).holding (side.sign * a) = some g ∧ (side.sign * a) • g ≤ (side.sign * a) • s.at j := by
  have h' := mt canRepair_iff.2 (Bool.eq_false_iff.1 h)
  rw [not_or, not_and, not_and] at h'
  rcases (mul_ne_zero side.sign_ne_zero ha).lt_or_gt with hneg | hpos
  · have hdown : ∃ l, (p.span j).low = some l ∧ s.at j ≤ l := by
      simpa using mt canDecrease_iff.2 (h'.2 hneg)
    obtain ⟨l, hl, hle⟩ := hdown
    exact ⟨l, by simp [Span.holding, hneg.not_gt, hl], smul_le_smul_of_nonpos_left hle hneg.le⟩
  · have hup : ∃ u, (p.span j).upper = some u ∧ u ≤ s.at j := by
      simpa using mt canIncrease_iff.2 (h'.1 hpos)
    obtain ⟨u, hu, hle⟩ := hup
    exact ⟨u, by simp [Span.holding, hpos, hu], smul_le_smul_of_nonneg_left hle hpos.le⟩

/-- the violated column is held back by the bound that it violates -/
theorem holding_of_breach (h : breach? Arithmetic.exact p s b = some side) :
    ∃ g, (p.span b).holding (-side.sign) = some g ∧ (-side.sign) • g < (-side.sign) • s.at b := by
  obtain ⟨hbound, hwrong⟩ := breach?_eq_some h
  refine ⟨target Arithmetic.exact p b side, ?_, ?_⟩
  · cases side with
    | belowLow => rwa [Span.holding, if_neg (by norm_num [Breach.sign])]
    | aboveUpper => rwa [Span.holding, if_pos (by norm_num [Breach.sign])]
  · rw [neg_smul, neg_smul, neg_lt_neg_iff, ← sub_pos, ← smul_sub]
    exact hwrong

/-! ## The invariant -/

/-- the state of a run of the exact engine on a problem -/
structure Sound (p : Problem Rat Delta) (s : State Rat Delta) : Prop where
  length : s.values.length = p.width
  within : s.tableau.Within p.width
  separate : s.tableau.Separate
  solves : s.tableau.Solves s.at
  /-- the tableau has the solutions of the problem, whatever the values are -/
  same : ∀ (M : Type) [AddCommGroup M] [Module Rat M] (x : Int → M), s.tableau.Solves x ↔ p.Vanishes x

def Inside (p : Problem Rat Delta) (s : State Rat Delta) : Prop :=
  ∀ j : Int, 0 ≤ j ∧ j < p.width → j ∉ s.tableau.keys → (p.span j).Contains (s.at j)

/-- the columns outside the basis lie within their bounds or on one of them -/
def Settled (p : Problem Rat Delta) (s : State Rat Delta) : Prop :=
  ∀ j : Int, 0 ≤ j ∧ j < p.width → j ∉ s.tableau.keys → (p.span j).Settles (s.at j)

theorem Settled.inside (h : Settled p s) (hp : p.Regular) : Inside p s :=
  fun j hj hjn => contains_of_settles hp (h j hj hjn)

/-! ## What is chosen -/

theorem ne_noColumn_of_within {n : Nat} (hw : s.tableau.Within n) (hb : b ∈ s.tableau.keys) :
    (b != noColumn) = true := by
  have := (hw.basic b hb).1
  simp only [noColumn, bne_iff_ne]
  omega

theorem leaving?_eq_none (h : Sound p s) (hn : leaving? Arithmetic.exact p s = none) :
    ∀ k ∈ s.tableau.keys, (p.span k).Contains (s.at k) := by
  intro k hk
  unfold leaving? at hn
  cases hf : s.tableau.sortedKeys.findSome? fun b => (breach? Arithmetic.exact p s b).map fun side => (b, side) with
  | none =>
    have := List.findSome?_eq_none_iff.1 hf k (mem_sortedKeys.2 hk)
    exact breach?_eq_none_iff.1 (Option.map_eq_none_iff.1 this)
  | some r =>
    obtain ⟨b, hb, hbr, -⟩ := findSome?_sortedKeys_eq_some hf
    obtain ⟨side, -, rfl⟩ := Option.map_eq_some_iff.1 hbr
    rw [hf, Option.filter_some, if_pos (ne_noColumn_of_within h.within hb)] at hn
    cases hn

theorem leaving?_eq_some (hl : leaving? Arithmetic.exact p s = some (b, side)) :
    b ∈ s.tableau.keys ∧ breach? Arithmetic.exact p s b = some side ∧
      ∀ k ∈ s.tableau.keys, k < b → (p.span k).Contains (s.at k) := by
  unfold leaving? at hl
  obtain ⟨b', hb', hbr, hleast⟩ := findSome?_sortedKeys_eq_some (Option.filter_eq_some_iff.1 hl).1
  obtain ⟨side', hside', heq⟩ := Option.map_eq_some_iff.1 hbr
  cases heq
  exact ⟨hb', hside', fun k hk hlt => breach?_eq_none_iff.1 (Option.map_eq_none_iff.1 (hleast k hk hlt))⟩

theorem entering?_eq_none (hpos : ∀ j ∈ row.keys, 0 ≤ j) (hn : entering? Arithmetic.exact p s side row = none) :
    ∀ e ∈ row.entries, canRepair Arithmetic.exact p s side e.2 e.1 = false := by
  intro e he
  unfold entering? at hn
  cases hf : row.byKey.find? fun e => canRepair Arithmetic.exact p s side e.2 e.1 with
  | none => simpa using List.find?_eq_none.1 hf e (mem_byKey.2 he)
  | some r =>
    have hr := (find?_byKey_eq_some hf).1
    have hne : (r.1 != noColumn) = true := by
      have := hpos r.1 (mem_keys_of_mem_entries hr)
      simp only [noColumn, bne_iff_ne]
      omega
    rw [hf, Option.filter_some, if_pos hne] at hn
    cases hn

theorem entering?_eq_some (he : entering? Arithmetic.exact p s side row = some (j, a)) :
    row.get? j = some a ∧ canRepair Arithmetic.exact p s side a j = true ∧
      ∀ e ∈ row.entries, e.1 < j → canRepair Arithmetic.exact p s side e.2 e.1 = false := by
  obtain ⟨hmem, hrep, hleast⟩ := find?_byKey_eq_some (Option.filter_eq_some_iff.1 he).1
  exact ⟨get?_eq_some_iff.2 hmem, hrep, hleast⟩

/-- column `b` violates a bound, and no column of its row can repair it -/
structure Stuck (p : Problem Rat Delta) (s : State Rat Delta) (b : Int) (side : Breach) (row : Row Rat) : Prop where
  row_eq : s.tableau.get? b = some row
  breach : breach? Arithmetic.exact p s b = some side
  stuck : ∀ e ∈ row.entries, canRepair Arithmetic.exact p s side e.2 e.1 = false

/-- column `b`, the least that violates a bound, is exchanged with column `j`, the least of its row that can repair
it -/
structure Moves (p : Problem Rat Delta) (s : State Rat Delta) (b j : Int) (side : Breach) (row : Row Rat) (a : Rat) :
    Prop where
  row_eq : s.tableau.get? b = some row
  breach : breach? Arithmetic.exact p s b = some side
  least_leaving : ∀ k ∈ s.tableau.keys, k < b → (p.span k).Contains (s.at k)
  entry : row.get? j = some a
  repairs : canRepair Arithmetic.exact p s side a j = true
  least_entering : ∀ e ∈ row.entries, e.1 < j → canRepair Arithmetic.exact p s side e.2 e.1 = false

theorem Moves.coef_ne_zero (m : Moves p s b j side row a) : a ≠ 0 := by
  rintro rfl
  have := m.repairs
  simp [canRepair] at this

theorem Moves.basic (m : Moves p s b j side row a) : b ∈ s.tableau.keys := mem_keys_iff.2 ⟨row, m.row_eq⟩

theorem Moves.nonbasic (m : Moves p s b j side row a) (h : Sound p s) : j ∉ s.tableau.keys :=
  h.separate b row m.row_eq j (mem_keys_iff.2 ⟨a, m.entry⟩)

theorem Moves.ne (m : Moves p s b j side row a) (h : Sound p s) : j ≠ b := fun hjb => m.nonbasic h (hjb ▸ m.basic)

theorem Moves.in_range (m : Moves p s b j side row a) (h : Sound p s) : 0 ≤ j ∧ j < p.width :=
  h.within.row b row m.row_eq j (mem_keys_iff.2 ⟨a, m.entry⟩)

/-! ## Exchanges -/

/-- how far the entering column moves -/
def stride (p : Problem Rat Delta) (s : State Rat Delta) (b : Int) (side : Breach) (a : Rat) : Delta :=
  a⁻¹ • (target Arithmetic.exact p b side - s.at b)

/-- the state after an exchange: the exchanged tableau, the leaving column on its bound, and the others moved by the
stride of the entering column -/
theorem exchange_ok (m : Moves p s b j side row a) :
    ∃ t', s.tableau.pivot Arithmetic.exact b j = .ok t' ∧
      exchange Arithmetic.exact s b j a (target Arithmetic.exact p b side) = .ok
        { tableau := t'
          values := drag Arithmetic.exact s.tableau.entries b j (stride p s b side a)
            (shift Arithmetic.exact (replaceAt s.values b (target Arithmetic.exact p b side)) j
              (stride p s b side a)) } := by
  have hnull : Arithmetic.exact.isNull a = false := by simpa using m.coef_ne_zero
  obtain ⟨t', hpivot, -⟩ := Tableau.pivot_rows m.row_eq m.entry hnull
  refine ⟨t', hpivot, ?_⟩
  have htheta : Arithmetic.exact.quotientOf
      (Arithmetic.exact.minus (target Arithmetic.exact p b side) (s.value Arithmetic.exact b)) a =
      .ok (stride p s b side a) := by
    simp [Arithmetic.quotientOf, m.coef_ne_zero, stride]
  unfold exchange
  rw [htheta, hpivot]
  rfl

section Exchange

variable (h : Sound p s) (m : Moves p s b j side row a)
  (hex : exchange Arithmetic.exact s b j a (target Arithmetic.exact p b side) = .ok s')

include m hex

theorem pivot_exchange : s.tableau.pivot Arithmetic.exact b j = .ok s'.tableau := by
  obtain ⟨t', hpivot, hok⟩ := exchange_ok m
  cases hex.symm.trans hok
  exact hpivot

theorem mem_keys_exchange (k : Int) : k ∈ s'.tableau.keys ↔ k = j ∨ (k ≠ b ∧ k ∈ s.tableau.keys) :=
  Tableau.mem_keys_pivot m.row_eq m.entry (by simpa using m.coef_ne_zero) (pivot_exchange m hex) k

theorem length_keys_exchange (hs : s.tableau.Separate) : s'.tableau.keys.length = s.tableau.keys.length :=
  Tableau.length_keys_pivot m.row_eq m.entry (by simpa using m.coef_ne_zero) (pivot_exchange m hex) hs

include h

theorem length_exchange : s'.values.length = p.width := by
  obtain ⟨t', -, hok⟩ := exchange_ok m
  cases hex.symm.trans hok
  show (drag _ _ _ _ _ _).length = _
  rw [length_drag, length_shift, length_replaceAt, h.length]

/-- **Values after an exchange.** Outside the basis only the entering column moves, by the stride. -/
theorem value_exchange_nonbasic {k : Int} (hk : 0 ≤ k ∧ k < p.width) (hkn : k ∉ s.tableau.keys) :
    s'.at k = s.at k + if k = j then stride p s b side a else 0 := by
  obtain ⟨t', -, hok⟩ := exchange_ok m
  cases hex.symm.trans hok
  have hbin := h.within.basic b m.basic
  have hjin := m.in_range h
  have hlen := h.length
  have hfollow : follow s.tableau.entries b j (stride p s b side a) k = 0 := by
    have hnone : valueOf k s.tableau.entries = none := get?_eq_none_iff.2 hkn
    simp [follow, hnone]
  have hkb : k ≠ b := fun hkb => hkn (hkb ▸ m.basic)
  show look Arithmetic.exact (drag _ _ _ _ _ _) k = _
  rw [look_drag s.tableau.distinct (fun e he => ?_) (by simpa [length_shift, hlen] using hk), hfollow, add_zero,
    look_shift (by simpa [hlen] using hjin) (by simpa [hlen] using hk),
    look_replaceAt (by simpa [hlen] using hbin) (by simpa [hlen] using hjin),
    look_replaceAt (by simpa [hlen] using hbin) (by simpa [hlen] using hk), if_neg (m.ne h), if_neg hkb]
  · split_ifs with hkj
    · rw [hkj]
      rfl
    · rw [add_zero]
      rfl
  · have := h.within.basic e.1 (mem_keys_of_mem_entries he)
    simpa [length_shift, hlen] using this

/-- every basic column moves by its coefficient for the entering column -/
theorem value_exchange_basic {k : Int} {old : Row Rat} (hk : s.tableau.get? k = some old) :
    s'.at k = s.at k + ((old.get? j).getD 0) • stride p s b side a := by
  obtain ⟨t', -, hok⟩ := exchange_ok m
  cases hex.symm.trans hok
  have hmem : k ∈ s.tableau.keys := mem_keys_iff.2 ⟨old, hk⟩
  have hkin := h.within.basic k hmem
  have hbin := h.within.basic b m.basic
  have hjin := m.in_range h
  have hlen := h.length
  have hkj : k ≠ j := fun hkj => m.nonbasic h (hkj ▸ hmem)
  show look Arithmetic.exact (drag _ _ _ _ _ _) k = _
  rw [look_drag s.tableau.distinct (fun e he => ?_) (by simpa [length_shift, hlen] using hkin),
    look_shift (by simpa [hlen] using hjin) (by simpa [hlen] using hkin), if_neg hkj,
    look_replaceAt (by simpa [hlen] using hbin) (by simpa [hlen] using hkin)]
  · by_cases hkb : k = b
    · -- the leaving column is placed on its bound, which is where the stride takes it
      subst hkb
      cases m.row_eq.symm.trans hk
      have ha := m.coef_ne_zero
      simp only [if_true, follow, add_zero, m.entry, Option.getD_some, stride]
      rw [smul_smul, mul_inv_cancel₀ ha, one_smul, add_sub_cancel]
    · have hval : valueOf k s.tableau.entries = some old := hk
      simp only [if_neg hkb, follow, hval, Option.bind_some]
      rfl
  · have := h.within.basic e.1 (mem_keys_of_mem_entries he)
    simpa [length_shift, hlen] using this

theorem value_exchange_leaving : s'.at b = target Arithmetic.exact p b side := by
  have ha := m.coef_ne_zero
  rw [value_exchange_basic h m hex m.row_eq, m.entry, Option.getD_some, stride, smul_smul, mul_inv_cancel₀ ha, one_smul,
    add_sub_cancel]

theorem solves_exchange_old : s.tableau.Solves s'.at := by
  intro k old hk
  have hcols : ∀ e ∈ (old.remove j).entries, s'.at e.1 = s.at e.1 := by
    intro e he
    obtain ⟨hej, hmem⟩ := mem_keys_remove.1 (mem_keys_of_mem_entries he)
    rw [value_exchange_nonbasic h m hex (h.within.row k old hk e.1 hmem) (h.separate k old hk e.1 hmem), if_neg hej,
      add_zero]
  have hj := value_exchange_nonbasic h m hex (m.in_range h) (m.nonbasic h)
  rw [if_pos rfl] at hj
  rw [value_exchange_basic h m hex hk, h.solves k old hk, Row.total_remove old j, Row.total_remove old j s'.at, hj,
    Row.total_congr hcols, smul_add]
  abel

/-- **Exchanges keep the invariant.** -/
theorem sound_exchange : Sound p s' := by
  have hpivot := pivot_exchange m hex
  have hnull : Arithmetic.exact.isNull a = false := by simpa using m.coef_ne_zero
  have hsolves : ∀ {M : Type} [AddCommGroup M] [Module Rat M] (x : Int → M),
      s'.tableau.Solves x ↔ s.tableau.Solves x :=
    fun x => Tableau.solves_pivot_iff h.separate m.row_eq m.entry m.coef_ne_zero hpivot x
  exact ⟨length_exchange h m hex, Tableau.within_pivot m.row_eq m.entry hnull hpivot h.within,
    Tableau.separate_pivot m.row_eq m.entry hnull hpivot h.separate, (hsolves _).2 (solves_exchange_old h m hex),
    fun M _ _ x => (hsolves x).trans (h.same M x)⟩

/-- what holds of the columns outside the basis, an exchange keeps if it holds of the bound that is reached -/
theorem outside_exchange {P : Int → Delta → Prop} (htarget : P b (target Arithmetic.exact p b side))
    (hs : ∀ k : Int, 0 ≤ k ∧ k < p.width → k ∉ s.tableau.keys → P k (s.at k)) {k : Int} (hk : 0 ≤ k ∧ k < p.width)
    (hkn : k ∉ s'.tableau.keys) : P k (s'.at k) := by
  by_cases hkb : k = b
  · subst hkb
    rwa [value_exchange_leaving h m hex]
  · rw [mem_keys_exchange m hex, not_or, not_and] at hkn
    have hold := hkn.2 hkb
    rw [value_exchange_nonbasic h m hex hk hold, if_neg hkn.1, add_zero]
    exact hs k hk hold

theorem settled_exchange (hs : Settled p s) : Settled p s' := fun _ =>
  outside_exchange h m hex (P := fun k v => (p.span k).Settles v) (settles_target m.breach) hs

end Exchange

/-! ## Steps -/

/-- **One step.** A step of a sound state does not fail: it ends the run with all columns within their bounds, ends it
at a column that cannot be repaired, or exchanges two columns. -/
theorem step_cases (h : Sound p s) :
    (step Arithmetic.exact p s = .ok .feasible ∧ ∀ k ∈ s.tableau.keys, (p.span k).Contains (s.at k)) ∨
    (∃ b side row, step Arithmetic.exact p s = .ok (.infeasible (conflictRow Arithmetic.exact row b side) side) ∧
      Stuck p s b side row) ∨
    ∃ b j side row a s', step Arithmetic.exact p s = .ok (.continues s') ∧ Moves p s b j side row a ∧
      exchange Arithmetic.exact s b j a (target Arithmetic.exact p b side) = .ok s' := by
  unfold step
  cases hl : leaving? Arithmetic.exact p s with
  | none => exact Or.inl ⟨rfl, leaving?_eq_none h hl⟩
  | some r =>
    obtain ⟨b, side⟩ := r
    obtain ⟨hb, hbreach, hleast⟩ := leaving?_eq_some hl
    obtain ⟨row, hrow⟩ := mem_keys_iff.1 hb
    simp only [hrow, Option.getD_some]
    cases he : entering? Arithmetic.exact p s side row with
    | none =>
      have hpos : ∀ j ∈ row.keys, 0 ≤ j := fun j hj => (h.within.row b row hrow j hj).1
      exact Or.inr (Or.inl ⟨b, side, row, rfl, hrow, hbreach, entering?_eq_none hpos he⟩)
    | some e =>
      obtain ⟨j, a⟩ := e
      obtain ⟨hentry, hrep, hleast'⟩ := entering?_eq_some he
      have m : Moves p s b j side row a := ⟨hrow, hbreach, hleast, hentry, hrep, hleast'⟩
      obtain ⟨t', -, hok⟩ := exchange_ok m
      exact Or.inr (Or.inr ⟨b, j, side, row, a, _, by simp only [hok]; rfl, m, hok⟩)

end Simplex

end Halfspace
