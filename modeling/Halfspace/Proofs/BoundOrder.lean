/-
Bounds that are converted to floats.

The engine compares values up to a tolerance, and a column should not have a low bound above its upper one. Over
doubles it never has: a bound is rounded once, and rounding keeps order (`Arithmetic.greater_double`). A longer float is
made in two steps, numerator first, and the numerators of two bounds are rounded on different grids, so that close
bounds may cross. They do not where nothing is rounded apart (`Arithmetic.Comparable`), and never by more than the
roundings come to (`Arithmetic.abs_toExtended_sub_le`).
- `converted_in_order`: the bounds of every column, in both arithmetics;
- `facing_is_crossed`: a column of which the bounds cross, though there is room between the exact ones.
-/
import Halfspace.Proofs.Answers
import Halfspace.Proofs.ApproximatePass
import Halfspace.Proofs.Doubles

namespace Halfspace

open Rounding

/-! ## Doubles -/

namespace Double

variable {a b t : Double} {q x y : Rat}

/-- a sum with a tolerance that is not below zero is not below a double that its other summand is not below -/
theorem add_lt_eq_false (ht : t.lt zero = false) (ha : a.value? = some x) (hb : b.value? = some y) (h : x ≤ y)
    (hround : roundTo y = y) (hlimit : -limit < y) : (b.add t).lt a = false := by
  have hkept : ∀ {c : Double} {z : Rat}, c.value? = some z → x ≤ z → c.lt a = false := by
    intro c z hc hz
    rw [lt_eq_decide hc ha]
    exact decide_eq_false (not_lt.2 hz)
  cases t with
  | nan => cases b <;> rfl
  | negInf => cases ht
  | posInf =>
    have hfinite : posInf.lt a = false := by cases a <;> rfl
    cases b with
    | finite q => exact hfinite
    | negZero => exact hfinite
    | _ => cases hb
  | negZero =>
    cases b with
    | finite q => exact hkept hb h
    | negZero => exact hkept hb h
    | _ => cases hb
  | finite q =>
    have hq : 0 ≤ q := not_lt.1 (of_decide_eq_false ht)
    cases b with
    | finite z =>
      obtain rfl : z = y := Option.some.inj hb
      have hle : z ≤ roundTo (z + q) := hround.symm.trans_le (roundTo_mono (by linarith))
      rcases nearest_cases (z + q < 0) (z + q) with ⟨hvalue, -⟩ | ⟨hinf, -⟩ | ⟨-, hsmall⟩
      · exact hkept hvalue (h.trans hle)
      · show (ofRat (z + q)).lt a = false
        rw [ofRat, hinf]
        cases a <;> rfl
      · linarith
    | negZero =>
      obtain rfl : 0 = y := Option.some.inj hb
      exact hkept rfl (h.trans hq)
    | _ => cases hb

end Double

namespace Arithmetic

variable {l u : Rat}

/-- **Doubles.** Bounds in order are in order when they are converted. -/
theorem greater_double {tolerance low upper : Double} (ht : tolerance.lt Double.zero = false) (h : l ≤ u)
    (hlow : toDouble l = .ok low) (hupper : toDouble u = .ok upper) :
    (double tolerance).greater low upper = false := by
  have hvalue : ∀ {q : Rat} {a : Double}, toDouble q = .ok a →
      a.value? = some (Double.roundTo q) ∧ |Double.roundTo q| < Double.limit := by
    intro q a ha
    unfold toDouble at ha
    split at ha
    · next b hb =>
      cases ha
      exact Double.value_of_ofRat? hb
    · cases ha
  obtain ⟨hlowValue, -⟩ := hvalue hlow
  obtain ⟨hupperValue, hlimit⟩ := hvalue hupper
  exact Double.add_lt_eq_false ht hlowValue hupperValue (Double.roundTo_mono h) (Double.roundTo_idem u)
    (abs_lt.1 hlimit).1

/-! ## Longer floats -/

variable {precision : Nat}

theorem rounded_mono (hprecision : 1 ≤ precision) (h : l ≤ u) : rounded precision l ≤ rounded precision u :=
  significant_mono hprecision none h

theorem rounded_intCast {n : Int} (h : |n| < 2 ^ precision) : rounded precision n = n := by
  apply significant_of_multiple
  have hwhole : Multiple 0 (n : Rat) := ⟨n, (mul_one _).symm⟩
  by_cases hn : n = 0
  · exact ⟨0, by simp [hn]⟩
  apply hwhole.of_le
  have hlow := (leadingExponent_spec (Int.cast_ne_zero.2 hn : (n : Rat) ≠ 0)).1
  have hhigh : |(n : Rat)| < twoPow precision := by
    rw [twoPow_eq]
    exact_mod_cast h
  have hleading : leadingExponent n < precision := twoPow_lt_iff.1 (hlow.trans_lt hhigh)
  rw [gridExponent_eq]
  simp only [Option.elim]
  omega

/-- the part of its size by which the two roundings of a conversion can move a number -/
def conversionError (precision : Nat) : Rat := 2 * twoPow (-precision) + twoPow (-precision) ^ 2

theorem abs_toExtended_sub_le (precision : Nat) (q : Rat) :
    |toExtended precision q - q| ≤ conversionError precision * |q| := by
  obtain ⟨top, htop⟩ : ∃ top, top = rounded precision q.num := ⟨_, rfl⟩
  obtain ⟨part, hpart⟩ : ∃ part, part = twoPow (-(precision : Int)) := ⟨_, rfl⟩
  have hden : (0 : Rat) < q.den := Nat.cast_pos.2 q.den_pos
  have hpartPos : 0 < part := hpart ▸ twoPow_pos _
  have hnum : |top - q.num| ≤ part * |(q.num : Rat)| := by
    rw [htop, hpart]
    exact abs_significant_sub_le precision _
  have hfirst : |top / q.den - q| ≤ part * |q| := by
    have hquotient : |q| = |(q.num : Rat)| / q.den := by
      conv_lhs => rw [← Rat.num_div_den q]
      rw [abs_div, abs_of_pos hden]
    have hmoved : top / q.den - q = (top - q.num) / q.den := by
      rw [sub_div, Rat.num_div_den]
    rw [hmoved, abs_div, abs_of_pos hden, hquotient, ← mul_div_assoc]
    exact div_le_div_of_nonneg_right hnum hden.le
  have hsecond : |rounded precision (top / q.den) - top / q.den| ≤ part * |top / q.den| := by
    rw [hpart]
    exact abs_significant_sub_le precision _
  have hsize : |top / q.den| ≤ (1 + part) * |q| := by
    have := abs_sub_abs_le_abs_sub (top / q.den) q
    linarith
  calc |toExtended precision q - q|
      = |(rounded precision (top / q.den) - top / q.den) + (top / q.den - q)| := by
        rw [toExtended, ← htop, sub_add_sub_cancel]
    _ ≤ part * |top / q.den| + part * |q| := (abs_add_le _ _).trans (add_le_add hsecond hfirst)
    _ ≤ part * ((1 + part) * |q|) + part * |q| := by
        linarith [mul_le_mul_of_nonneg_left hsize hpartPos.le]
    _ = conversionError precision * |q| := by
        rw [conversionError, ← hpart]
        ring

/-- bounds that are not rounded apart: zero lies between them, they have one denominator, their numerators are kept, or
they are so small that the roundings come to no more than the tolerance -/
inductive Comparable (digits : Nat) (l u : Rat) : Prop where
  | apart (hl : l ≤ 0) (hu : 0 ≤ u)
  | alike (hden : l.den = u.den)
  | short (hl : |l.num| < 2 ^ binaryDigits digits) (hu : |u.num| < 2 ^ binaryDigits digits)
  | small (h : conversionError (binaryDigits digits) * (|l| + |u|) ≤ (extendedTolerance digits).value?.getD 0)

theorem toExtended_le_add (precision : Nat) (h : l ≤ u) :
    toExtended precision l ≤ toExtended precision u + conversionError precision * (|l| + |u|) := by
  have hl := (abs_le.1 (abs_toExtended_sub_le precision l)).2
  have hu := (abs_le.1 (abs_toExtended_sub_le precision u)).1
  linarith

/-- numbers are in order after the second rounding if they are after the first -/
theorem toExtended_mono (hprecision : 1 ≤ precision)
    (h : rounded precision l.num / l.den ≤ rounded precision u.num / u.den) :
    toExtended precision l ≤ toExtended precision u := rounded_mono hprecision h

/-- **Longer floats.** Bounds in order that are not rounded apart are in order when they are converted. -/
theorem greater_extended {digits : Nat} (h : l ≤ u) (hcomparable : Comparable digits l u) :
    (extended digits).greater (toExtended (binaryDigits digits) l) (toExtended (binaryDigits digits) u) = false := by
  have hprecision := one_le_binaryDigits digits
  have hslack := extendedTolerance_nonneg digits
  have hclose : toExtended (binaryDigits digits) l ≤
      toExtended (binaryDigits digits) u + (extendedTolerance digits).value?.getD 0 := by
    have hmono : rounded (binaryDigits digits) l.num / l.den ≤ rounded (binaryDigits digits) u.num / u.den →
        toExtended (binaryDigits digits) l ≤
          toExtended (binaryDigits digits) u + (extendedTolerance digits).value?.getD 0 := fun hfirst =>
      (toExtended_mono hprecision hfirst).trans (le_add_of_nonneg_right hslack)
    cases hcomparable with
    | apart hl hu =>
      apply hmono
      have hzero : rounded (binaryDigits digits) 0 = 0 := by rw [rounded, significant, if_pos rfl]
      have hlow : rounded (binaryDigits digits) l.num ≤ 0 :=
        hzero ▸ rounded_mono hprecision (Int.cast_nonpos.2 (Rat.num_nonpos.2 hl))
      have hhigh : 0 ≤ rounded (binaryDigits digits) u.num :=
        rounded_nonneg _ (Int.cast_nonneg (Rat.num_nonneg.2 hu))
      exact (div_nonpos_of_nonpos_of_nonneg hlow (Nat.cast_nonneg _)).trans (div_nonneg hhigh (Nat.cast_nonneg _))
    | alike hden =>
      apply hmono
      have hnum : l.num ≤ u.num := by
        rw [← Rat.num_div_den l, ← Rat.num_div_den u, ← hden,
          div_le_div_iff_of_pos_right (Nat.cast_pos.2 l.den_pos)] at h
        exact_mod_cast h
      rw [← hden]
      exact div_le_div_of_nonneg_right (rounded_mono hprecision (Int.cast_le.2 hnum)) (Nat.cast_nonneg _)
    | short hl hu =>
      apply hmono
      rwa [rounded_intCast hl, rounded_intCast hu, Rat.num_div_den, Rat.num_div_den]
    | small hsmall => exact (toExtended_le_add _ h).trans (by linarith)
  -- the low bound is on the grid already, so that the sum is not rounded below it
  have hkept : rounded (binaryDigits digits) (toExtended (binaryDigits digits) l) =
      toExtended (binaryDigits digits) l := significant_idem hprecision none _
  have hsum := rounded_mono hprecision hclose
  rw [hkept] at hsum
  exact decide_eq_false (not_lt.2 hsum)

end Arithmetic

/-! ## Columns -/

namespace Solver

open Assembly

variable {K V : Type} {A : Arithmetic K V} {s : Solver} {a : Assembly K V} {j : Nat} {l u : Limit}

/-- a column whose interval has two ends, with room between them -/
structure Bounded (s : Solver) (a : Assembly K V) (j : Nat) (l u : Limit) : Prop where
  interval : ∃ i, a.sides[j]? = some i ∧ s.intervals.getD i Interval.whole = ⟨some l, some u⟩
  room : Interval.isEmpty ⟨some l, some u⟩ = false

theorem Bounded.le (h : Bounded s a j l u) : l.value ≤ u.value := by
  have hroom := h.room
  simp only [Interval.isEmpty, Bool.or_eq_false_iff, decide_eq_false_iff_not, not_lt] at hroom
  exact hroom.1

theorem spanOf_eq_ok {span : Span V} (h : spanOf A ⟨some l, some u⟩ = .ok span) : ∃ low upper,
    A.lowBound l.value l.strict = .ok low ∧ A.upperBound u.value u.strict = .ok upper ∧
      span = ⟨some low, some upper⟩ := by
  simp only [spanOf, Option.mapM_some, map_eq_pure_bind, bind_assoc, pure_bind] at h
  obtain ⟨low, hlow, h⟩ := bind_eq_ok_iff.1 h
  obtain ⟨upper, hupper, h⟩ := bind_eq_ok_iff.1 h
  exact ⟨low, upper, hlow, hupper, (Except.ok.inj h).symm⟩

/-- the bounds of an assembled column are its interval's ends, converted -/
theorem Bounded.span_eq (h : Bounded s a j l u) (ha : s.assemble A = .ok a) : ∃ low upper,
    A.lowBound l.value l.strict = .ok low ∧ A.upperBound u.value u.strict = .ok upper ∧
      a.problem.spans[j]? = some ⟨some low, some upper⟩ := by
  obtain ⟨i, hside, hinterval⟩ := h.interval
  unfold assemble ofSides at ha
  obtain ⟨names, -, ha⟩ := bind_eq_ok_iff.1 ha
  obtain ⟨rows, -, ha⟩ := bind_eq_ok_iff.1 ha
  obtain ⟨spans, hspans, ha⟩ := bind_eq_ok_iff.1 ha
  cases ha
  obtain ⟨hlength, hget⟩ := List.forall₂_iff_get.1 (List.forall₂_map_left_iff.1 (mapM_eq_ok_iff.1 hspans))
  obtain ⟨hj, hi⟩ := List.getElem?_eq_some_iff.1 hside
  have hspan := hget j hj (hlength ▸ hj)
  simp only [List.get_eq_getElem, hi, hinterval] at hspan
  obtain ⟨low, upper, hlow, hupper, hboth⟩ := spanOf_eq_ok hspan
  refine ⟨low, upper, hlow, hupper, ?_⟩
  rw [List.getElem?_eq_getElem (hlength ▸ hj), ← hboth]

/-- **Columns.** In every problem that is assembled over doubles, the bounds of a column are in order if those of its
interval are. Over longer floats they are unless the roundings of the two numerators can set them apart, and then no
further than the roundings come to. -/
theorem converted_in_order (s : Solver) :
    (∀ (tolerance : Double) (a : Assembly Double Double) (j : Nat) (l u : Limit),
      tolerance.lt Double.zero = false → s.assemble (.double tolerance) = .ok a → Bounded s a j l u →
      ∃ low upper, a.problem.spans[j]? = some ⟨some low, some upper⟩ ∧
        (Arithmetic.double tolerance).greater low upper = false) ∧
    ∀ (digits : Nat) (a : Assembly Rat Rat) (j : Nat) (l u : Limit),
      s.assemble (.extended digits) = .ok a → Bounded s a j l u →
      ∃ low upper, a.problem.spans[j]? = some ⟨some low, some upper⟩ ∧
        (Arithmetic.Comparable digits l.value u.value → (Arithmetic.extended digits).greater low upper = false) ∧
        low - upper ≤ Arithmetic.conversionError (Arithmetic.binaryDigits digits) * (|l.value| + |u.value|) := by
  constructor
  · intro tolerance a j l u htolerance ha hbounded
    obtain ⟨low, upper, hlow, hupper, hspan⟩ := hbounded.span_eq ha
    exact ⟨low, upper, hspan, Arithmetic.greater_double htolerance hbounded.le hlow hupper⟩
  · intro digits a j l u ha hbounded
    obtain ⟨low, upper, hlow, hupper, hspan⟩ := hbounded.span_eq ha
    cases hlow
    cases hupper
    refine ⟨_, _, hspan, Arithmetic.greater_extended hbounded.le, ?_⟩
    linarith [Arithmetic.toExtended_le_add (Arithmetic.binaryDigits digits) hbounded.le]

/-- `1/3 ≤ x < 2/3` -/
def parted : List Call :=
  [.addVar "x", .addConstraint [(.number 1, .id 0)] ">=" (.text "1/3"),
    .addConstraint [(.number 3, .id 0)] "<" (.number 2)]

theorem parted_is_in_order : Arithmetic.usualTolerance.lt Double.zero = false ∧
    (∃ a low upper, ((new {}).runCalls parted).assemble (.double Arithmetic.usualTolerance) = .ok a ∧
      Bounded ((new {}).runCalls parted) a 0 ⟨1/3, false, 0⟩ ⟨2/3, true, 1⟩ ∧
      a.problem.spans[0]? = some ⟨some low, some upper⟩ ∧
      (Arithmetic.double Arithmetic.usualTolerance).greater low upper = false) ∧
    ∃ a low upper, ((new {}).runCalls parted).assemble (.extended 10) = .ok a ∧
      Bounded ((new {}).runCalls parted) a 0 ⟨1/3, false, 0⟩ ⟨2/3, true, 1⟩ ∧
      a.problem.spans[0]? = some ⟨some low, some upper⟩ ∧ Arithmetic.Comparable 10 (1/3) (2/3) ∧
      (Arithmetic.extended 10).greater low upper = false := by
  have htolerance : Arithmetic.usualTolerance.lt Double.zero = false := by decide +kernel
  have hinterval : ((new {}).runCalls parted).intervals.getD 0 Interval.whole =
      ⟨some ⟨1/3, false, 0⟩, some ⟨2/3, true, 1⟩⟩ := by decide +kernel
  refine ⟨htolerance, ?_, ?_⟩
  · have hsides : (((new {}).runCalls parted).assemble (.double Arithmetic.usualTolerance)).map (·.sides) =
        .ok [0] := by decide +kernel
    obtain ⟨a, ha, hzero⟩ := map_eq_ok_iff.1 hsides
    have hbounded : Bounded ((new {}).runCalls parted) a 0 ⟨1/3, false, 0⟩ ⟨2/3, true, 1⟩ :=
      ⟨⟨0, by rw [hzero]; rfl, hinterval⟩, by decide +kernel⟩
    obtain ⟨low, upper, hspan, horder⟩ := (converted_in_order _).1 _ a 0 _ _ htolerance ha hbounded
    exact ⟨a, low, upper, ha, hbounded, hspan, horder⟩
  · have hsides : (((new {}).runCalls parted).assemble (.extended 10)).map (·.sides) = .ok [0] := by decide +kernel
    obtain ⟨a, ha, hzero⟩ := map_eq_ok_iff.1 hsides
    have hbounded : Bounded ((new {}).runCalls parted) a 0 ⟨1/3, false, 0⟩ ⟨2/3, true, 1⟩ :=
      ⟨⟨0, by rw [hzero]; rfl, hinterval⟩, by decide +kernel⟩
    have hcomparable : Arithmetic.Comparable 10 (1/3) (2/3) := .short (by decide +kernel) (by decide +kernel)
    obtain ⟨low, upper, hspan, horder, -⟩ := (converted_in_order _).2 10 a 0 _ _ ha hbounded
    exact ⟨a, low, upper, ha, hbounded, hspan, hcomparable, horder hcomparable⟩

/-- `420000000014/3 ≤ x ≤ 140000000005`, where the ends are a third apart -/
def facing : List Call :=
  [.addVar "x", .addConstraint [(.number 1, .id 0)] ">=" (.text "420000000014/3"),
    .addConstraint [(.number 1, .id 0)] "<=" (.number 140000000005)]

/-- With ten digits both numerators are rounded, and the low bound comes to stand two above the upper one. The column
starts on it, and so outside its bounds. -/
theorem facing_is_crossed : Reachable {} ((new {}).runCalls facing) ∧
    ∃ a, ((new {}).runCalls facing).assemble (.extended 10) = .ok a ∧
      Bounded ((new {}).runCalls facing) a 0 ⟨420000000014/3, false, 0⟩ ⟨140000000005, false, 1⟩ ∧
      a.problem.spans[0]? = some ⟨some 140000000006, some 140000000004⟩ ∧
      (Arithmetic.extended 10).greater 140000000006 140000000004 = true ∧
      a.problem.within (.extended 10) 0 (a.problem.restingValue (.extended 10) 0) = false := by
  have hparts : (((new {}).runCalls facing).assemble (.extended 10)).map (fun a =>
      (a.sides, a.problem.spans, a.problem.within (.extended 10) 0 (a.problem.restingValue (.extended 10) 0))) =
      .ok ([0], [⟨some 140000000006, some 140000000004⟩], false) := by decide +kernel
  have hinterval : ((new {}).runCalls facing).intervals.getD 0 Interval.whole =
      ⟨some ⟨420000000014/3, false, 0⟩, some ⟨140000000005, false, 1⟩⟩ := by decide +kernel
  obtain ⟨a, ha, hshape⟩ := map_eq_ok_iff.1 hparts
  obtain ⟨hsides, hrest⟩ := Prod.mk.inj hshape
  obtain ⟨hspans, hwithin⟩ := Prod.mk.inj hrest
  have hbounded : Bounded ((new {}).runCalls facing) a 0 ⟨420000000014/3, false, 0⟩ ⟨140000000005, false, 1⟩ :=
    ⟨⟨0, by rw [hsides]; rfl, hinterval⟩, by decide +kernel⟩
  refine ⟨reachable_runCalls {} facing, a, ha, hbounded, ?_, by decide +kernel, hwithin⟩
  rw [hspans]
  rfl

end Solver

end Halfspace
