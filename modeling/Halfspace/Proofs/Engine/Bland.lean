/-
Termination of the exact engine, by the rule that always takes the lowest column.

Values and lengths do not decrease along a run, so the argument counts exchanges by their highest column. Suppose a
column `c` leaves the basis and later enters it again, while no exchange in between has a higher column. Compare the
values at the two moments through the row that is violated at the second. Both moments solve it. The violated column
has moved away from where it may be, and yet no term of the row has moved that way:
- columns above `c` have not moved at all;
- columns below `c` cannot repair the row at the second moment, and at the first they were within their bounds, or
  stood on a crossed one and have not moved either;
- column `c` itself rests on the bound it was moved onto, and can only move back inside.
This is `no_return`. So the highest column of a path enters at most once and then leaves at most once, and a path over
the first `m` columns has fewer than `3 ^ m` exchanges (`shorter_pow`). No order of the bounds is asked for.
- `run_decides`: a run with a limit of `3 ^ width` or more is feasible or infeasible.
-/
import Halfspace.Proofs.Engine.Run

namespace Halfspace.Simplex

open Keyed

variable {p : Problem Rat Delta} {s s' t : State Rat Delta} {b j k c : Int} {side side' : Breach}
  {row row' : Row Rat} {a a' : Rat} {es : List (Int × Int)}

/-! ## Terms of a violated row -/

/-- the difference to a column that cannot repair a row counts, within the bounds, against the repair -/
theorem smul_sub_nonpos (h : canRepair Arithmetic.exact p s side a j = false) {v : Delta}
    (hv : (p.span j).Contains v) : (side.sign * a) • (v - s.at j) ≤ 0 := by
  by_cases ha : a = 0
  · rw [ha, mul_zero, zero_smul]
  · obtain ⟨g, hg, hle⟩ := holding_of_not_repairs h ha
    rw [smul_sub]
    exact sub_nonpos.2 ((Span.smul_le_holding hg hv).trans hle)

/-- a column that rests on a bound can only repair by moving inside, away from where it violated that bound -/
theorem smul_sub_nonpos_of_rest (hbreach : breach? Arithmetic.exact p s c = some side)
    (hrest : t.at c = target Arithmetic.exact p c side)
    (hrep : canRepair Arithmetic.exact p t side' a c = true) : (side'.sign * a) • (s.at c - t.at c) ≤ 0 := by
  obtain ⟨hbound, hwrong⟩ := breach?_eq_some hbreach
  rw [← hrest] at hbound hwrong
  cases side with
  | belowLow =>
    have hlt : s.at c < t.at c := by simpa [Breach.sign] using hwrong
    rcases canRepair_iff.1 hrep with ⟨hpos, -⟩ | ⟨-, hdown⟩
    · exact smul_nonpos_of_nonneg_of_nonpos hpos.le (sub_nonpos.2 hlt.le)
    · exact absurd (canDecrease_iff.1 hdown _ hbound) (lt_irrefl _)
  | aboveUpper =>
    have hlt : t.at c < s.at c := by simpa [Breach.sign] using hwrong
    rcases canRepair_iff.1 hrep with ⟨-, hup⟩ | ⟨hneg, -⟩
    · exact absurd (canIncrease_iff.1 hup _ hbound) (lt_irrefl _)
    · exact smul_nonpos_of_nonpos_of_nonneg hneg.le (sub_nonneg.2 hlt.le)

/-! ## No return -/

/-- below the leaving column, all columns are within their bounds, but for those that stand on a crossed bound and stay
there -/
theorem Moves.contains_below (m : Moves p s c j side row a) (hs : Sound p s) (hsettled : Settled p s)
    (hpath : Path p s es t) (hk : 0 ≤ k ∧ k < p.width) (hlt : k < c) :
    (p.span k).Contains (s.at k) ∨ k ∉ t.tableau.keys ∧ t.at k = s.at k := by
  by_cases hmem : k ∈ s.tableau.keys
  · exact Or.inl (m.least_leaving k hmem hlt)
  · exact or_iff_not_imp_left.2 fun hout => hpath.crossed_frame hs hmem hk (hsettled k hk hmem) hout

/-- **No return.** A column that leaves the basis in `s` and still rests on its bound in `t` does not enter there, if the
columns above it outside the basis have not moved and a lower column leaves. -/
theorem no_return (hs : Sound p s) (hsettled : Settled p s) (hpath : Path p s es t) (left : Moves p s c j side row a)
    (enters : Moves p t b c side' row' a') (hrest : t.at c = target Arithmetic.exact p c side) (hbc : b < c)
    (habove : ∀ k, c < k → 0 ≤ k ∧ k < p.width → k ∉ t.tableau.keys → s.at k = t.at k) : False := by
  have ht := hpath.sound hs
  have hsolves : t.tableau.Solves s.at := (ht.same Delta _).2 ((hs.same Delta _).1 hs.solves)
  have hdiff : s.at b - t.at b = (row'.entries.map fun e => e.2 • (s.at e.1 - t.at e.1)).sum := by
    rw [hsolves b row' enters.row_eq, ht.solves b row' enters.row_eq, Row.total_sub]
  -- the violated column was within its bounds before, so that it has moved away from them
  have hmoved : 0 < side'.sign • (s.at b - t.at b) := by
    obtain ⟨hbound, hwrong⟩ := breach?_eq_some enters.breach
    have hbefore : (p.span b).Contains (s.at b) :=
      (left.contains_below hs hsettled hpath (ht.within.basic b enters.basic) hbc).resolve_right
        fun hstays => hstays.1 enters.basic
    have hright := Breach.nonneg_of_contains hbefore hbound
    set g := target Arithmetic.exact p b side'
    calc 0 < side'.sign • (s.at b - g) + side'.sign • (g - t.at b) := add_pos_of_nonneg_of_pos hright hwrong
      _ = side'.sign • (s.at b - t.at b) := by rw [← smul_add, sub_add_sub_cancel]
  -- no term of its row has moved that way
  have hterms : side'.sign • (s.at b - t.at b) ≤ 0 := by
    rw [hdiff, List.smul_sum, List.map_map]
    refine (List.sum_le_card_nsmul _ 0 fun x hx => ?_).trans (nsmul_zero _).le
    obtain ⟨e, he, rfl⟩ := List.mem_map.1 hx
    have hmem := mem_keys_of_mem_entries he
    have hin := ht.within.row b row' enters.row_eq e.1 hmem
    show side'.sign • e.2 • (s.at e.1 - t.at e.1) ≤ 0
    rw [smul_smul]
    rcases lt_trichotomy e.1 c with hlt | heq | hgt
    · rcases left.contains_below hs hsettled hpath hin hlt with hbefore | ⟨-, hstays⟩
      · exact smul_sub_nonpos (enters.least_entering e he hlt) hbefore
      · rw [hstays, sub_self, smul_zero]
    · have hcoef : a' = e.2 := by
        have hget := get?_eq_some_iff.2 he
        rw [heq, enters.entry] at hget
        exact Option.some.inj hget
      rw [heq, ← hcoef]
      exact smul_sub_nonpos_of_rest left.breach hrest enters.repairs
    · rw [habove e.1 hgt hin (ht.separate b row' enters.row_eq e.1 hmem), sub_self, smul_zero]
  exact absurd hmoved hterms.not_gt

/-! ## Lengths of paths -/

theorem exists_first {α : Type} (P : α → Prop) (xs : List α) :
    (∀ x ∈ xs, ¬P x) ∨ ∃ as x bs, xs = as ++ x :: bs ∧ P x ∧ ∀ y ∈ as, ¬P y := by
  induction xs with
  | nil => exact Or.inl (by simp)
  | cons x rest ih =>
    by_cases hx : P x
    · exact Or.inr ⟨[], x, rest, rfl, hx, by simp⟩
    · rcases ih with h | ⟨as, y, bs, rfl, hy, has⟩
      · exact Or.inl (List.forall_mem_cons.2 ⟨hx, h⟩)
      · exact Or.inr ⟨x :: as, y, bs, rfl, hy, List.forall_mem_cons.2 ⟨hx, has⟩⟩

def Below (m : Int) (es : List (Int × Int)) : Prop := ∀ e ∈ es, e.1 < m ∧ e.2 < m

theorem Below.left {m : Int} {es fs : List (Int × Int)} (h : Below m (es ++ fs)) : Below m es :=
  fun e he => h e (List.mem_append_left _ he)

theorem Below.right {m : Int} {es fs : List (Int × Int)} (h : Below m (es ++ fs)) : Below m fs :=
  fun e he => h e (List.mem_append_right _ he)

theorem Below.pred {m : Int} (h : Below (m + 1) es) (h1 : ∀ e ∈ es, e.1 ≠ m) (h2 : ∀ e ∈ es, e.2 ≠ m) : Below m es :=
  fun e he => ⟨lt_of_le_of_ne (Int.lt_add_one_iff.1 (h e he).1) (h1 e he),
    lt_of_le_of_ne (Int.lt_add_one_iff.1 (h e he).2) (h2 e he)⟩

namespace Path

/-- after the highest column of a path has left, no exchange has it again -/
theorem below_of_left (h : Sound p s) (hs : Settled p s) {m : Int} (hpath : Path p s ((m, j) :: es) t)
    (hcols : Below (m + 1) ((m, j) :: es)) : Below m es := by
  cases hpath with
  | @cons _ s₁ _ _ _ side row a _ left hex rest =>
    have h₁ := sound_exchange h left hex
    have hm := h.within.basic m left.basic
    have hout : m ∉ s₁.tableau.keys := by
      rw [mem_keys_exchange left hex]
      rintro (hmj | ⟨hne, -⟩)
      · exact left.ne h hmj.symm
      · exact hne rfl
    have hcols' : Below (m + 1) es := fun e he => hcols e (List.mem_cons_of_mem _ he)
    rcases exists_first (fun e : Int × Int => e.2 = m) es with hnone | ⟨as, ⟨b, k⟩, bs, rfl, rfl, has⟩
    · exact hcols'.pred (rest.nonbasic_frame h₁ hout hm hnone).2.2 hnone
    · -- the first time that it enters again contradicts `no_return`
      obtain ⟨u, hfirst, hsecond⟩ := rest.split
      obtain ⟨hku, hvalue, hleave⟩ := hfirst.nonbasic_frame h₁ hout hm has
      cases hsecond with
      | @cons _ _ _ _ _ side' row' a' _ enters _ _ =>
        have hu := hfirst.sound h₁
        have hrest : u.at k = target Arithmetic.exact p k side := by
          rw [hvalue, value_exchange_leaving h left hex]
        have hbk : b < k := by
          have hle := (hcols' (b, k) (by simp)).1
          have hne : b ≠ k := fun hbk => enters.ne hu hbk.symm
          simp only at hle
          omega
        have hwhole : Path p s ((k, j) :: as) u := .cons left hex hfirst
        refine (no_return h hs hwhole left enters hrest hbk fun i hki hin hiu => ?_).elim
        have hfree : ∀ e ∈ (k, j) :: as, e.1 ≠ i ∧ e.2 ≠ i := by
          intro e he
          have hlt := hcols e (by
            rcases List.mem_cons.1 he with rfl | he
            · exact List.mem_cons_self
            · exact List.mem_cons_of_mem _ (List.mem_append_left _ he))
          constructor <;> omega
        have his : i ∉ s.tableau.keys :=
          fun his => hiu (hwhole.basic_frame h his fun e he => (hfree e he).1).1
        exact (hwhole.nonbasic_frame h his hin fun e he => (hfree e he).2).2.1.symm

end Path

/-- from settled states, paths over the first `m` columns have fewer than `n` exchanges -/
def Shorter (p : Problem Rat Delta) (m n : Nat) : Prop :=
  ∀ {s t : State Rat Delta} {es : List (Int × Int)}, Sound p s → Settled p s → Path p s es t → Below m es →
    es.length < n

namespace Shorter

variable {m n : Nat}

theorem zero (p : Problem Rat Delta) : Shorter p 0 1 := by
  intro s t es h hs hpath hcols
  cases es with
  | nil => simp
  | cons e rest =>
    have hneg := (hcols e List.mem_cons_self).1
    have hpos := (hpath.in_range h e List.mem_cons_self).1.1
    simp only [Nat.cast_zero] at hneg
    omega

/-- once the highest column has left, the rest is a path over the lower ones -/
theorem of_left (hmn : Shorter p m n) (h : Sound p s) (hs : Settled p s)
    (hpath : Path p s (((m : Int), j) :: es) t) (hcols : Below (m + 1) (((m : Int), j) :: es)) : es.length < n := by
  have hbelow := Path.below_of_left h hs hpath hcols
  cases hpath with
  | cons left hex rest => exact hmn (sound_exchange h left hex) (settled_exchange h left hex hs) rest hbelow

/-- a path that starts with the highest column in the basis: it leaves at most once -/
theorem of_basic (hmn : Shorter p m n) (h : Sound p s) (hs : Settled p s) (hpath : Path p s es t)
    (hcols : Below (m + 1) es) (hmem : (m : Int) ∈ s.tableau.keys) : es.length < 2 * n := by
  rcases exists_first (fun e : Int × Int => e.1 = m) es with hnone | ⟨as, ⟨b, j⟩, bs, rfl, rfl, has⟩
  · have hlt := hmn h hs hpath (hcols.pred hnone (hpath.basic_frame h hmem hnone).2)
    omega
  · obtain ⟨u, hfirst, hsecond⟩ := hpath.split
    have hlt := hmn h hs hfirst (hcols.left.pred has (hfirst.basic_frame h hmem has).2)
    have hlt' := hmn.of_left (hfirst.sound h) (hfirst.settled h hs) hsecond hcols.right
    rw [List.length_append, List.length_cons]
    omega

/-- one more column: before it first leaves or enters, and from then on -/
theorem succ (hmn : Shorter p m n) : Shorter p (m + 1) (3 * n) := by
  intro s t es h hs hpath hcols
  push_cast at hcols
  rcases exists_first (fun e : Int × Int => e.1 = m ∨ e.2 = m) es with hnone | ⟨as, e, bs, rfl, he, has⟩
  · have hlt := hmn h hs hpath
      (hcols.pred (fun e he hm => hnone e he (Or.inl hm)) fun e he hm => hnone e he (Or.inr hm))
    omega
  · obtain ⟨u, hfirst, hsecond⟩ := hpath.split
    have hlt := hmn h hs hfirst
      (hcols.left.pred (fun e he hm => has e he (Or.inl hm)) fun e he hm => has e he (Or.inr hm))
    have hu := hfirst.sound h
    have hus := hfirst.settled h hs
    rw [List.length_append, List.length_cons]
    obtain ⟨b, k⟩ := e
    rcases he with rfl | rfl
    · have hlt' := hmn.of_left hu hus hsecond hcols.right
      omega
    · cases hsecond with
      | cons enters hex rest =>
        have hlt' := hmn.of_basic (sound_exchange hu enters hex) (settled_exchange hu enters hex hus) rest
          (fun e he => hcols.right e (List.mem_cons_of_mem _ he))
          ((mem_keys_exchange enters hex _).2 (Or.inl rfl))
        omega

end Shorter

/-- **Lengths of paths.** Over the first `m` columns there are fewer than `3 ^ m` exchanges in a row. -/
theorem shorter_pow (p : Problem Rat Delta) (m : Nat) : Shorter p m (3 ^ m) := by
  induction m with
  | zero => exact Shorter.zero p
  | succ m ih =>
    rw [pow_succ, mul_comm]
    exact Shorter.succ ih

theorem Path.length_lt (h : Sound p s) (hs : Settled p s) (hpath : Path p s es t) : es.length < 3 ^ p.width :=
  shorter_pow p p.width h hs hpath fun e he => ⟨(hpath.in_range h e he).1.2, (hpath.in_range h e he).2.2⟩

/-! ## Decisions -/

/-- **Decisions.** A run on a framed problem is feasible or infeasible as soon as its limit reaches `3 ^ width`, from
whatever start, and even if bounds are crossed. -/
theorem run_decides (hp : p.Framed Arithmetic.exact) (start : Keyed Delta) {limit : Int} (hlimit : (3 ^ p.width : Nat) ≤ limit) :
    ∃ r, Simplex.run Arithmetic.exact p start limit = .ok r ∧ (r.outcome = .feasible ∨ r.outcome = .infeasible) := by
  obtain ⟨s, es, t, r, hr, h, hs, -, hpath, hend⟩ := run_cases hp start limit
  refine ⟨r, hr, ?_⟩
  rcases hend with ⟨-, hend⟩ | ⟨hlen, -⟩
  · cases hend with
    | feasible => exact Or.inl rfl
    | infeasible => exact Or.inr rfl
  · have hlt := hpath.length_lt h hs
    omega

end Halfspace.Simplex
