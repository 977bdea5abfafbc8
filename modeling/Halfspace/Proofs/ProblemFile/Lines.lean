/-
The lines of a written problem file, and where they are cut.

`Statement.text` writes a constraint as in `-2*x + 1/3*y <= 5/2`, `declaration` the line that declares names. The left
side is a rendering in a fixed layout (`toList_leftText`), so what is known of renderings holds of it. What is proved of
each line is what there is to be found on it:
- `statementOf_text`, `statementOf_declaration`: the line itself, for it has no comment and no white space around it;
- `cutAtRelations_text`: one relation, between the left side and the number;
- `declared?_text`: no declaration, unless the line begins with the name `var` and a space;
- `declared?_declaration`: the names that were declared.
-/
import Halfspace.ProblemFile.Load
import Halfspace.Proofs.ProblemFile.Numbers

namespace Halfspace

open Text

namespace ProblemFile

open LeftSide (isName isNameChar Layout render renderTerm)

/-! ## Where texts are cut -/

/-- a character that neither is part of a relation nor starts a comment -/
def Plain (c : Char) : Prop := c ≠ '<' ∧ c ≠ '>' ∧ c ≠ '=' ∧ c ≠ '#'

instance (c : Char) : Decidable (Plain c) := inferInstanceAs (Decidable (_ ∧ _))

/-- a character that is no part of a relation -/
def Loose (c : Char) : Prop := c ≠ '<' ∧ c ≠ '>' ∧ c ≠ '='

instance (c : Char) : Decidable (Loose c) := inferInstanceAs (Decidable (_ ∧ _))

theorem Plain.loose {c : Char} (h : Plain c) : Loose c := ⟨h.1, h.2.1, h.2.2.1⟩

theorem cutAtRelations_append {cs : List Char} (h : ∀ c ∈ cs, Loose c) (rest : List Char) :
    cutAtRelations (cs ++ rest) = (cs ++ (cutAtRelations rest).1, (cutAtRelations rest).2) := by
  induction cs with
  | nil => rfl
  | cons c cs ih =>
    obtain ⟨⟨hlt, hgt, heq⟩, hcs⟩ := List.forall_mem_cons.1 h
    have hcons : cutAtRelations (c :: (cs ++ rest)) = Cut.cons c (cutAtRelations (cs ++ rest)) := by
      rw [cutAtRelations.eq_def]
      split <;> simp_all
    rw [List.cons_append, hcons, ih hcs]
    rfl

/-- a text is cut at a relation that a space follows -/
theorem cutAtRelations_symbol (r : Relation) (rest : List Char) :
    cutAtRelations (r.symbol.toList ++ ' ' :: rest) = Cut.startWith r (cutAtRelations (' ' :: rest)) := by
  cases r <;> rfl

/-- a text whose first word is followed by a space is a declaration if the word is `var` -/
theorem declared?_append {a : List Char} (ha : ' ' ∉ a) (rest : List Char) :
    (declared? (a ++ ' ' :: rest)).isSome ↔ a = ['v', 'a', 'r'] := by
  have hcut : ∀ {b more : List Char}, ' ' ∉ b → (b ++ ' ' :: more).takeWhile (· ≠ ' ') = b := by
    intro b more hb
    have hall : ∀ c ∈ b, decide (c ≠ ' ') = true := by
      intro c hc
      rw [decide_eq_true_iff]
      rintro rfl
      exact hb hc
    rw [List.takeWhile_append_of_pos hall]
    simp
  rw [declared?.eq_def]
  split
  · next more hsplit =>
    have hvar : a = ['v', 'a', 'r'] := by
      calc a = (a ++ ' ' :: rest).takeWhile (· ≠ ' ') := (hcut ha).symm
        _ = (['v', 'a', 'r'] ++ ' ' :: more).takeWhile (· ≠ ' ') := by rw [hsplit]; rfl
        _ = ['v', 'a', 'r'] := hcut (by decide)
    exact ⟨fun _ => hvar, fun _ => rfl⟩
  · next hother =>
    refine ⟨fun h => (by cases h), ?_⟩
    rintro rfl
    exact absurd rfl (hother rest)

theorem loadLine_eq {s : Solver} {line : String} {cs : List Char} (number : Nat) (hcs : statementOf line = cs)
    (hne : cs ≠ []) :
    loadLine s number line =
      match declared? cs with
      | some names => .ok (names.foldl Solver.addVar s)
      | none => (loadConstraint s cs).mapError (locate number) := by
  rw [loadLine, hcs]
  split
  · exact absurd rfl hne
  · rfl

/-! ## Writing -/

/-- a constraint as it is written: coefficients with names, a relation and a number -/
structure Statement where
  terms : List (Rat × String)
  relation : Relation
  rhs : Rat
  deriving DecidableEq, Repr

/-- a coefficient without its sign before a name, one left out -/
def factorText (q : Rat) : String := if |q| = 1 then "" else fraction |q| ++ "*"

def leadText (q : Rat) (name : String) : String := (if q < 0 then "-" else "") ++ factorText q ++ name

def nextText (q : Rat) (name : String) : String := (if q < 0 then " - " else " + ") ++ factorText q ++ name

def nextTexts : List (Rat × String) → String
  | [] => ""
  | (q, name) :: rest => nextText q name ++ nextTexts rest

/-- a left side such as `-2*x + 1/3*y - z` -/
def leftText : List (Rat × String) → String
  | [] => ""
  | (q, name) :: rest => leadText q name ++ nextTexts rest

def Statement.text (st : Statement) : String :=
  leftText st.terms ++ " " ++ st.relation.symbol ++ " " ++ fraction st.rhs

def spaced : List String → String
  | [] => ""
  | name :: rest => " " ++ name ++ spaced rest

def declaration (names : List String) : String := "var" ++ spaced names

/-- a file that declares names and states constraints -/
def write (names : List String) (statements : List Statement) : List String :=
  declaration names :: statements.map Statement.text

/-! ### The layout of what is written -/

/-- spaces around a sign between terms and nowhere else, and a star after every coefficient that is written -/
def layout (first : Bool) (q : Rat) : Layout where
  before := if first then ⟨[], blanks_nil⟩ else ⟨[' '], by decide⟩
  afterSign := if first then ⟨[], blanks_nil⟩ else ⟨[' '], by decide⟩
  star := |q| ≠ 1

theorem toList_factorText (first : Bool) (q : Rat) : (factorText q).toList =
    LeftSide.magnitudeText (layout first q) q ++ if (layout first q).star then ['*'] else [] := by
  have hsize : (fraction |q|).toList = LeftSide.sizeText false q := by
    rw [Numeral.toList_fraction, if_neg (not_lt.2 (abs_nonneg q)), List.nil_append, LeftSide.sizeText,
      LeftSide.sizeText, Rat.den_abs_eq_den, Rat.num_abs_eq_abs_num, Int.natAbs_abs]
  by_cases hone : |q| = 1
  · simp [factorText, layout, LeftSide.magnitudeText, hone]
  · simp [factorText, layout, LeftSide.magnitudeText, hone, hsize]

theorem toList_leadText (q : Rat) (name : String) :
    (leadText q name).toList = renderTerm (layout true q) true q name := by
  rw [leadText, String.toList_append, String.toList_append, toList_factorText true q]
  by_cases hq : q < 0 <;> simp [renderTerm, LeftSide.signOf, LeftSide.signText, layout, hq]

theorem toList_nextText (q : Rat) (name : String) :
    (nextText q name).toList = renderTerm (layout false q) false q name := by
  rw [nextText, String.toList_append, String.toList_append, toList_factorText false q]
  by_cases hq : q < 0 <;> simp [renderTerm, LeftSide.signOf, LeftSide.signText, layout, hq]

/-- terms with the layout in which they are written -/
def laidOut : Bool → List (Rat × String) → List (Layout × Rat × String)
  | _, [] => []
  | first, (q, name) :: rest => (layout first q, q, name) :: laidOut false rest

theorem map_laidOut (first : Bool) (terms : List (Rat × String)) : (laidOut first terms).map Prod.snd = terms := by
  induction terms generalizing first with
  | nil => rfl
  | cons t terms ih => rw [laidOut, List.map_cons, ih]

theorem toList_nextTexts (terms : List (Rat × String)) :
    (nextTexts terms).toList = render false (laidOut false terms) := by
  induction terms with
  | nil => rfl
  | cons t terms ih =>
    rw [nextTexts, String.toList_append, toList_nextText, ih]
    rfl

theorem toList_leftText (terms : List (Rat × String)) :
    (leftText terms).toList = render true (laidOut true terms) := by
  cases terms with
  | nil => rfl
  | cons t terms =>
    rw [leftText, String.toList_append, toList_leadText, toList_nextTexts]
    rfl

/-! ### The characters of what is written -/

def spaces (l : Layout) : List Char :=
  l.before.1 ++ l.afterSign.1 ++ l.afterCoefficient.1 ++ l.afterStar.1 ++ l.after.1

theorem isBlank_of_mem_spaces {l : Layout} {c : Char} (hc : c ∈ spaces l) : isBlank c = true := by
  simp only [spaces, List.mem_append] at hc
  rcases hc with (((hc | hc) | hc) | hc) | hc
  · exact l.before.2 c hc
  · exact l.afterSign.2 c hc
  · exact l.afterCoefficient.2 c hc
  · exact l.afterStar.2 c hc
  · exact l.after.2 c hc

theorem mem_renderTerm {l : Layout} {first : Bool} {q : Rat} {name : String} (hname : isName name.toList = true)
    {c : Char} (hc : c ∈ renderTerm l first q name) :
    c ∈ spaces l ∨ isDigit c = true ∨ isNameChar c = true ∨ c = '-' ∨ c = '+' ∨ c = '*' ∨ c = '/' := by
  obtain ⟨coef, hspells, -⟩ := LeftSide.exists_spells_magnitudeText l q
  simp only [renderTerm, List.mem_append] at hc
  simp only [spaces, List.mem_append]
  rcases hc with hc | hc | hc | hc | hc | hc | hc | hc | hc
  · simp [hc]
  · rw [LeftSide.signText.eq_def] at hc
    split at hc <;> simp_all
  · simp [hc]
  · rcases hspells.forall_mem c hc with h | rfl <;> simp [*]
  · simp [hc]
  · split at hc <;> simp_all
  · simp [hc]
  · simp [LeftSide.isNameChar_of_mem hname c hc]
  · simp [hc]

theorem plain_of_isBlank {c : Char} (h : isBlank c = true) : Plain c := by
  refine ⟨?_, ?_, ?_, ?_⟩ <;> rintro rfl <;> exact absurd h (by decide)

theorem plain_of_isDigit {c : Char} (h : isDigit c = true) : Plain c := by
  refine ⟨?_, ?_, ?_, ?_⟩ <;> rintro rfl <;> exact absurd h (by decide)

theorem plain_of_isNameChar {c : Char} (h : isNameChar c = true) : Plain c := by
  refine ⟨?_, ?_, ?_, ?_⟩ <;> rintro rfl <;> exact absurd h (by decide)

theorem plain_of_mem_render {first : Bool} {items : List (Layout × Rat × String)}
    (hnames : ∀ i ∈ items, isName i.2.2.toList = true) : ∀ c ∈ render first items, Plain c := by
  induction items generalizing first with
  | nil => simp [render]
  | cons i items ih =>
    obtain ⟨l, q, name⟩ := i
    obtain ⟨hname, hnames⟩ := List.forall_mem_cons.1 hnames
    intro c hc
    rcases List.mem_append.1 hc with hc | hc
    · rcases mem_renderTerm hname hc with h | h | h | rfl | rfl | rfl | rfl
      · exact plain_of_isBlank (isBlank_of_mem_spaces h)
      · exact plain_of_isDigit h
      · exact plain_of_isNameChar h
      all_goals decide
    · exact ih hnames c hc

theorem isBlank_of_mem_leadText {q : Rat} {name : String} (hname : isName name.toList = true) {c : Char}
    (hc : c ∈ (leadText q name).toList) : isBlank c = false := by
  rw [toList_leadText] at hc
  rcases mem_renderTerm hname hc with h | h | h | rfl | rfl | rfl | rfl
  · simp [spaces, layout] at h
  · exact isBlank_of_isDigit h
  · exact LeftSide.isBlank_of_isNameChar h
  all_goals decide

theorem leadText_ne_nil {q : Rat} {name : String} (hname : isName name.toList = true) :
    (leadText q name).toList ≠ [] := by
  obtain ⟨c, cs, hcs, -⟩ := LeftSide.isName_iff.1 hname
  simp [leadText, String.toList_append, hcs]

/-! ## A line that states a constraint -/

structure Statement.Valid (st : Statement) : Prop where
  terms_ne : st.terms ≠ []
  names : ∀ t ∈ st.terms, isName t.2.toList = true

variable {st : Statement}

theorem toList_text (st : Statement) : st.text.toList =
    (leftText st.terms).toList ++ ' ' :: (st.relation.symbol.toList ++ ' ' :: (fraction st.rhs).toList) := by
  simp [Statement.text, String.toList_append]

/-- a space follows the first term of a line -/
theorem exists_nextTexts (terms : List (Rat × String)) (cs : List Char) :
    ∃ more, (nextTexts terms).toList ++ ' ' :: cs = ' ' :: more := by
  cases terms with
  | nil => exact ⟨cs, rfl⟩
  | cons t terms =>
    rw [nextTexts, nextText, String.toList_append, String.toList_append, String.toList_append]
    by_cases hq : t.1 < 0
    · exact ⟨_, by simp only [if_pos hq, List.append_assoc]; rfl⟩
    · exact ⟨_, by simp only [if_neg hq, List.append_assoc]; rfl⟩

theorem exists_text_eq {q : Rat} {name : String} {rest : List (Rat × String)} (h : st.terms = (q, name) :: rest) :
    ∃ more, st.text.toList = (leadText q name).toList ++ ' ' :: more := by
  obtain ⟨more, hmore⟩ := exists_nextTexts rest (st.relation.symbol.toList ++ ' ' :: (fraction st.rhs).toList)
  refine ⟨more, ?_⟩
  rw [toList_text, h, leftText, String.toList_append, List.append_assoc, hmore]

theorem Statement.Valid.names_laidOut (h : st.Valid) :
    ∀ i ∈ laidOut true st.terms, isName i.2.2.toList = true := by
  intro i hi
  exact h.names i.2 (map_laidOut true st.terms ▸ List.mem_map_of_mem hi)

theorem plain_of_mem_leftText (h : st.Valid) : ∀ c ∈ (leftText st.terms).toList, Plain c := by
  rw [toList_leftText]
  exact plain_of_mem_render h.names_laidOut

theorem plain_of_mem_fraction (q : Rat) : ∀ c ∈ (fraction q).toList, Plain c := by
  intro c hc
  rcases Numeral.mem_fraction hc with h | rfl | rfl
  · exact plain_of_isDigit h
  · decide
  · decide

/-- a written line is cut where its relation stands -/
theorem cutAtRelations_text (h : st.Valid) : cutAtRelations st.text.toList =
    ((leftText st.terms).toList ++ [' '], [(st.relation, ' ' :: (fraction st.rhs).toList)]) := by
  have hleft : ∀ c ∈ (leftText st.terms).toList ++ [' '], Plain c := by
    intro c hc
    rcases List.mem_append.1 hc with hc | hc
    · exact plain_of_mem_leftText h c hc
    · rw [List.mem_singleton.1 hc]
      decide
  have hright : cutAtRelations (' ' :: (fraction st.rhs).toList) = (' ' :: (fraction st.rhs).toList, []) := by
    have hplain : ∀ c ∈ ' ' :: (fraction st.rhs).toList, Plain c :=
      List.forall_mem_cons.2 ⟨by decide, plain_of_mem_fraction st.rhs⟩
    simpa only [List.append_nil, cutAtRelations] using cutAtRelations_append (fun c hc => (hplain c hc).loose) []
  calc cutAtRelations st.text.toList
      = cutAtRelations (((leftText st.terms).toList ++ [' ']) ++
          (st.relation.symbol.toList ++ ' ' :: (fraction st.rhs).toList)) := by
        rw [toList_text, List.append_assoc, List.singleton_append]
    _ = _ := by
        rw [cutAtRelations_append fun c hc => (hleft c hc).loose, cutAtRelations_symbol, hright]
        simp [Cut.startWith]

theorem ne_of_mem_text (h : st.Valid) : ∀ c ∈ st.text.toList, c ≠ '#' := by
  intro c hc
  rw [toList_text] at hc
  simp only [List.mem_append, List.mem_cons] at hc
  rcases hc with hc | rfl | hc | rfl | hc
  · exact (plain_of_mem_leftText h c hc).2.2.2
  · decide
  · rintro rfl
    cases hr : st.relation <;> simp [hr, Relation.symbol] at hc
  · decide
  · exact (plain_of_mem_fraction st.rhs c hc).2.2.2

theorem statementOf_text (h : st.Valid) : statementOf st.text = st.text.toList := by
  obtain ⟨t, rest, hterms⟩ := List.exists_cons_of_ne_nil h.terms_ne
  obtain ⟨more, hmore⟩ := exists_text_eq hterms
  have hname : isName t.2.toList = true := h.names t (hterms ▸ List.mem_cons_self)
  have hcomment : st.text.toList.takeWhile (· ≠ '#') = st.text.toList :=
    List.takeWhile_eq_self_iff.2 fun c hc => decide_eq_true (ne_of_mem_text h c hc)
  have hrhs : ∀ c ∈ (fraction st.rhs).toList.reverse, isBlank c = false := fun c hc =>
    Numeral.isBlank_of_mem_fraction (List.mem_reverse.1 hc)
  rw [statementOf, hcomment]
  apply trim_of_next
  · rw [hmore]
    exact Next.extend (.of_forall fun c hc => isBlank_of_mem_leadText hname hc) (leadText_ne_nil hname) _
  · rw [toList_text, List.reverse_append, List.reverse_cons, List.reverse_append, List.reverse_cons]
    simp only [List.append_assoc]
    exact Next.extend (.of_forall hrhs) (by simpa using Numeral.fraction_ne_nil st.rhs) _

/-- a line is taken for a declaration if its first term is the bare name `var` -/
theorem declared?_text {q : Rat} {name : String} {rest : List (Rat × String)} (h : st.terms = (q, name) :: rest)
    (hname : isName name.toList = true) : (declared? st.text.toList).isSome ↔ q = 1 ∧ name = "var" := by
  obtain ⟨more, hmore⟩ := exists_text_eq h
  have hspace : ' ' ∉ (leadText q name).toList := fun hmem =>
    absurd (isBlank_of_mem_leadText hname hmem) (by decide)
  rw [hmore, declared?_append hspace]
  by_cases hone : q = 1
  · have hlead : (leadText q name).toList = name.toList := by simp [leadText, factorText, hone]
    rw [hlead]
    exact ⟨fun hvar => ⟨hone, String.toList_inj.1 hvar⟩, fun hvar => by rw [hvar.2]; rfl⟩
  · refine ⟨fun hvar => ?_, fun hvar => absurd hvar.1 hone⟩
    -- any other coefficient shows: as a minus in front, or as a star
    by_cases hq : q < 0
    · simp [leadText, hq, String.toList_append] at hvar
    · have hsize : |q| ≠ 1 := by rwa [abs_of_nonneg (not_lt.1 hq)]
      have hstar : '*' ∈ (leadText q name).toList := by simp [leadText, factorText, hsize, String.toList_append]
      rw [hvar] at hstar
      exact absurd hstar (by decide)

/-! ## A line that declares names -/

theorem toList_spaced (names : List String) :
    (spaced names).toList = (names.map String.toList).flatMap (' ' :: ·) := by
  induction names with
  | nil => rfl
  | cons name names ih =>
    rw [spaced, String.toList_append, String.toList_append, ih]
    rfl

theorem toList_declaration (name : String) (names : List String) : (declaration (name :: names)).toList =
    'v' :: 'a' :: 'r' :: ' ' :: (name.toList ++ (names.map String.toList).flatMap (' ' :: ·)) := by
  rw [declaration, String.toList_append, toList_spaced]
  rfl

variable {name : String} {names : List String}

theorem mem_names (h : ∀ n ∈ name :: names, isName n.toList = true) {c : Char}
    (hc : c ∈ name.toList ++ (names.map String.toList).flatMap (' ' :: ·)) : isNameChar c = true ∨ c = ' ' := by
  obtain ⟨hname, hnames⟩ := List.forall_mem_cons.1 h
  rcases List.mem_append.1 hc with hc | hc
  · exact .inl (LeftSide.isNameChar_of_mem hname c hc)
  · obtain ⟨text, htext, hc⟩ := List.mem_flatMap.1 hc
    obtain ⟨n, hn, rfl⟩ := List.mem_map.1 htext
    rcases List.mem_cons.1 hc with rfl | hc
    · exact .inr rfl
    · exact .inl (LeftSide.isNameChar_of_mem (hnames n hn) c hc)

theorem name_ne_nil {name : String} (h : isName name.toList = true) : name.toList ≠ [] := by
  obtain ⟨c, cs, hcs, -⟩ := LeftSide.isName_iff.1 h
  simp [hcs]

theorem next_reverse_names (h : ∀ n ∈ name :: names, isName n.toList = true) :
    Next (isBlank · = false) (name.toList ++ (names.map String.toList).flatMap (' ' :: ·)).reverse := by
  have hname := h name List.mem_cons_self
  induction names generalizing name with
  | nil =>
    simp only [List.map_nil, List.flatMap_nil, List.append_nil]
    exact .of_forall fun c hc =>
      LeftSide.isBlank_of_isNameChar (LeftSide.isNameChar_of_mem hname c (List.mem_reverse.1 hc))
  | cons n names ih =>
    obtain ⟨-, hnames⟩ := List.forall_mem_cons.1 h
    have hn := hnames n List.mem_cons_self
    rw [List.map_cons, List.flatMap_cons, List.cons_append, List.reverse_append, List.reverse_cons]
    refine (Next.extend (ih hnames hn) ?_ _).extend ?_ _
    · simp [name_ne_nil hn]
    · simp

theorem statementOf_declaration (h : ∀ n ∈ name :: names, isName n.toList = true) :
    statementOf (declaration (name :: names)) = (declaration (name :: names)).toList := by
  have hcomment : (declaration (name :: names)).toList.takeWhile (· ≠ '#') = (declaration (name :: names)).toList := by
    rw [List.takeWhile_eq_self_iff, toList_declaration]
    have hnames : ∀ c ∈ name.toList ++ (names.map String.toList).flatMap (' ' :: ·), decide (c ≠ '#') = true := by
      intro c hc
      rcases mem_names h hc with hc | rfl
      · exact decide_eq_true (plain_of_isNameChar hc).2.2.2
      · decide
    simpa only [List.forall_mem_cons] using ⟨by decide, by decide, by decide, by decide, hnames⟩
  rw [statementOf, hcomment, toList_declaration]
  apply trim_of_next
  · exact next_cons.2 (by decide)
  · simp only [List.reverse_cons, List.append_assoc]
    refine (next_reverse_names h).extend ?_ _
    simp [name_ne_nil (h name List.mem_cons_self)]

theorem declared?_declaration (h : ∀ n ∈ name :: names, isName n.toList = true) :
    declared? (declaration (name :: names)).toList = some (name :: names) := by
  have hcomma : ∀ c ∈ name.toList ++ (names.map String.toList).flatMap (' ' :: ·),
      (if c = ',' then ' ' else c) = c := by
    intro c hc
    rcases mem_names h hc with hc | rfl
    · exact if_neg (by rintro rfl; exact absurd hc (by decide))
    · rfl
  have hwords : ∀ n ∈ name.toList :: names.map String.toList, n ≠ [] ∧ ∀ c ∈ n, isBlank c = false := by
    intro text htext
    rw [← List.map_cons] at htext
    obtain ⟨n, hn, rfl⟩ := List.mem_map.1 htext
    refine ⟨name_ne_nil (h n hn), fun c hc => ?_⟩
    exact LeftSide.isBlank_of_isNameChar (LeftSide.isNameChar_of_mem (h n hn) c hc)
  rw [toList_declaration, declared?, List.map_congr_left hcomma, List.map_id', words_append hwords]
  simp [String.ofList_toList, Function.comp_def]

end ProblemFile

end Halfspace
