/-
What reading a term accepts, and what it returns.

`SpellsTerm w text` says that a text writes a term, with white space wherever it may stand. A reader takes its piece from
the front of a text, and the grammar says which piece that is because the character after it cannot belong to it:
- `readTerm_append`: a term is read up to its end, and with it the white space after it;
- `readTerm_split`: whatever was read as a term stands at the front of the text and spells it.
-/
import Halfspace.ProblemFile.LeftSide
import Halfspace.Proofs.Text

namespace Halfspace

open Text

namespace LeftSide

/-! ## Grammar -/

/-- a letter or an underscore, and then those and digits -/
def isName : List Char → Bool
  | [] => false
  | c :: cs => isNameStart c && cs.all isNameChar

def signText : Option Bool → List Char
  | none => []
  | some true => ['-']
  | some false => ['+']

/-- a text writes a coefficient: nothing, digits, or digits over digits -/
inductive SpellsCoefficient : Option Coefficient → List Char → Prop where
  | absent : SpellsCoefficient none []
  | whole {top : List Nat} {a : List Char} (htop : Spells a top) (hne : top ≠ []) :
      SpellsCoefficient (some ⟨top, none⟩) a
  | quotient {top bottom : List Nat} {a b : List Char} (htop : Spells a top) (hbottom : Spells b bottom)
      (hne : top ≠ []) (hne' : bottom ≠ []) : SpellsCoefficient (some ⟨top, some bottom⟩) (a ++ '/' :: b)

/-- a text writes a term, with white space between its parts and around it -/
inductive SpellsTerm (w : WrittenTerm) : List Char → Prop where
  | parts {a b coef c star d e : List Char} (ha : Blanks a) (hb : Blanks b)
      (hcoef : SpellsCoefficient w.coef coef) (hc : Blanks c) (hstar : star = [] ∨ star = ['*']) (hd : Blanks d)
      (hname : isName w.name.toList = true) (he : Blanks e) :
      SpellsTerm w (a ++ (signText w.sign ++ (b ++ (coef ++ (c ++ (star ++ (d ++ (w.name.toList ++ e))))))))

/-! ## Characters -/

theorem isNameStart_iff {c : Char} : isNameStart c = true ↔
    65 ≤ c.toNat ∧ c.toNat ≤ 90 ∨ 97 ≤ c.toNat ∧ c.toNat ≤ 122 ∨ c.toNat = 95 := by
  have hbar : c = '_' ↔ c.toNat = 95 := Char.toNat_inj.symm
  simp only [isNameStart, Char.le_def, UInt32.le_iff_toNat_le, Bool.or_eq_true, Bool.and_eq_true,
    decide_eq_true_eq, or_assoc, hbar]
  rfl

theorem isNameChar_iff {c : Char} : isNameChar c = true ↔ isNameStart c = true ∨ 48 ≤ c.toNat ∧ c.toNat ≤ 57 := by
  simp only [isNameChar, Char.le_def, UInt32.le_iff_toNat_le, Bool.or_eq_true, Bool.and_eq_true, decide_eq_true_eq]
  rfl

theorem isBlank_of_isNameChar {c : Char} (h : isNameChar c = true) : isBlank c = false := by
  have hcodes : ∀ n : Fin 128, 48 ≤ n.val → n.val ≤ 122 → blankCodes.contains n.val = false := by decide
  rw [isNameChar_iff, isNameStart_iff] at h
  exact hcodes ⟨c.toNat, by omega⟩ (by simp only; omega) (by simp only; omega)

theorem isBlank_of_isNameStart {c : Char} (h : isNameStart c = true) : isBlank c = false :=
  isBlank_of_isNameChar (isNameChar_iff.2 (.inl h))

theorem isNameChar_of_isBlank {c : Char} (h : isBlank c = true) : isNameChar c = false := by
  by_contra hc
  rw [isBlank_of_isNameChar (by simpa using hc)] at h
  exact absurd h (by decide)

theorem isDigit_of_isNameStart {c : Char} (h : isNameStart c = true) : isDigit c = false := by
  rw [isNameStart_iff] at h
  rw [isDigit_eq_false_iff, digit?_of_toNat_lt (by omega), if_neg (by omega)]

theorem isName_iff {name : List Char} : isName name = true ↔
    ∃ c cs, name = c :: cs ∧ isNameStart c = true ∧ ∀ d ∈ cs, isNameChar d = true := by
  cases name <;> simp [isName]

theorem isNameChar_of_mem {name : List Char} (h : isName name = true) : ∀ c ∈ name, isNameChar c = true := by
  obtain ⟨c, cs, rfl, hc, hcs⟩ := isName_iff.1 h
  exact List.forall_mem_cons.2 ⟨isNameChar_iff.2 (.inl hc), hcs⟩

theorem exists_mem_of_isName {name : List Char} (h : isName name = true) : ∃ c ∈ name, isBlank c = false := by
  obtain ⟨c, cs, rfl, hc, -⟩ := isName_iff.1 h
  exact ⟨c, List.mem_cons_self, isBlank_of_isNameStart hc⟩

/-! ## What the readers take from the front of a text -/

theorem readName_append {name rest : List Char} (h : isName name = true)
    (hrest : Next (isNameChar · = false) rest) : readName (name ++ rest) = some (String.ofList name, rest) := by
  obtain ⟨c, cs, rfl, hc, hcs⟩ := isName_iff.1 h
  have hkeep : rest.takeWhile isNameChar = [] ∧ rest.dropWhile isNameChar = rest := by
    cases rest with
    | nil => simp
    | cons d rest => simp [next_cons.1 hrest]
  rw [List.cons_append, readName, if_pos hc, List.takeWhile_append_of_pos hcs, List.dropWhile_append_of_pos hcs,
    hkeep.1, hkeep.2, List.append_nil]

theorem readSign_append {sign : Option Bool} {rest : List Char} (hrest : Next (fun c => c ≠ '-' ∧ c ≠ '+') rest) :
    readSign (signText sign ++ rest) = (sign, rest) := by
  cases sign with
  | none =>
    rw [signText, List.nil_append, readSign.eq_def]
    split
    · exact absurd rfl (next_cons.1 hrest).1
    · exact absurd rfl (next_cons.1 hrest).2
    · rfl
  | some minus => cases minus <;> rfl

theorem readDenominator_append {b rest : List Char} {bottom : List Nat} (h : Spells b bottom) (hne : bottom ≠ [])
    (hrest : Next (isDigit · = false) rest) : readDenominator ('/' :: (b ++ rest)) = (some bottom, rest) := by
  cases bottom with
  | nil => exact absurd rfl hne
  | cons d bottom => simp only [readDenominator, plainDigits_append h hrest]

theorem readDenominator_of_next {rest : List Char} (hrest : Next (· ≠ '/') rest) :
    readDenominator rest = (none, rest) := by
  rw [readDenominator.eq_def]
  split
  · exact absurd rfl (next_cons.1 hrest)
  · rfl

theorem readCoefficient_append {coef : Option Coefficient} {text rest : List Char} (h : SpellsCoefficient coef text)
    (hdigit : Next (isDigit · = false) rest) (hstroke : Next (· ≠ '/') rest) :
    readCoefficient (text ++ rest) = (coef, rest) := by
  cases h with
  | absent =>
    have hread : plainDigits ([] ++ rest) = ([], rest) := plainDigits_append .nil hdigit
    rw [List.nil_append] at hread ⊢
    simp only [readCoefficient, hread]
  | @whole top a htop hne =>
    cases top with
    | nil => exact absurd rfl hne
    | cons d top =>
      simp only [readCoefficient, plainDigits_append htop hdigit]
      simp [readDenominator_of_next hstroke]
  | @quotient top bottom a b htop hbottom hne hne' =>
    cases top with
    | nil => exact absurd rfl hne
    | cons d top =>
      have hread : plainDigits (a ++ ('/' :: (b ++ rest))) = (d :: top, '/' :: (b ++ rest)) :=
        plainDigits_append htop (next_cons.2 (by decide))
      simp only [readCoefficient, List.append_assoc, List.cons_append, hread]
      simp [readDenominator_append hbottom hne' hdigit]

theorem skipStar_of_next {cs : List Char} (h : Next (· ≠ '*') cs) : skipStar cs = cs := by
  rw [skipStar.eq_def]
  split
  · exact absurd rfl (next_cons.1 h)
  · rfl

/-- the star between a coefficient and a name, with the white space around it -/
theorem skipBlanks_star {c star d name : List Char} (hc : Blanks c) (hstar : star = [] ∨ star = ['*'])
    (hd : Blanks d) (hname : Next (isNameStart · = true) name) :
    skipBlanks (skipStar (skipBlanks (c ++ (star ++ (d ++ name))))) = name := by
  have hkeep : skipBlanks name = name := skipBlanks_of_next (hname.imp fun _ h => isBlank_of_isNameStart h)
  rw [skipBlanks_blanks_append hc]
  rcases hstar with rfl | rfl
  · rw [List.nil_append, skipBlanks_blanks_append hd, hkeep,
      skipStar_of_next (hname.imp fun _ h hstar => by simp [hstar, isNameStart] at h), hkeep]
  · calc skipBlanks (skipStar (skipBlanks ('*' :: (d ++ name))))
        = skipBlanks (skipStar ('*' :: (d ++ name))) := by rw [skipBlanks_of_next (next_cons.2 (by decide))]
      _ = name := by rw [skipStar, skipBlanks_blanks_append hd, hkeep]

theorem SpellsCoefficient.cases {coefficient : Option Coefficient} {coef : List Char}
    (h : SpellsCoefficient coefficient coef) :
    coefficient = none ∧ coef = [] ∨ ∃ c cs, coef = c :: cs ∧ isDigit c = true := by
  have hdigits : ∀ {top : List Nat} {a : List Char}, Spells a top → top ≠ [] →
      ∃ c cs, a = c :: cs ∧ isDigit c = true := by
    intro top a htop hne
    cases htop with
    | nil => exact absurd rfl hne
    | cons hc _ => exact ⟨_, _, rfl, by simp [isDigit, hc]⟩
  cases h with
  | absent => exact .inl ⟨rfl, rfl⟩
  | whole htop hne => exact .inr (hdigits htop hne)
  | quotient htop _ hne _ =>
    obtain ⟨c, cs, rfl, hc⟩ := hdigits htop hne
    exact .inr ⟨c, _, rfl, hc⟩

theorem SpellsCoefficient.forall_mem {coefficient : Option Coefficient} {coef : List Char}
    (h : SpellsCoefficient coefficient coef) : ∀ c ∈ coef, isDigit c = true ∨ c = '/' := by
  intro c hc
  cases h with
  | absent => cases hc
  | whole htop _ => exact .inl (htop.isDigit c hc)
  | quotient htop hbottom _ _ =>
    rcases List.mem_append.1 hc with hc | hc
    · exact .inl (htop.isDigit c hc)
    · rcases List.mem_cons.1 hc with hc | hc
      · exact .inr hc
      · exact .inl (hbottom.isDigit c hc)

theorem readCoefficient_skipBlanks {b coef rest : List Char} {coefficient : Option Coefficient} (hb : Blanks b)
    (h : SpellsCoefficient coefficient coef) (hrest : Next (fun c => isDigit c = false ∧ c ≠ '/') (skipBlanks rest)) :
    ∃ more, readCoefficient (skipBlanks (b ++ (coef ++ rest))) = (coefficient, more) ∧
      skipBlanks more = skipBlanks rest := by
  rw [skipBlanks_blanks_append hb]
  rcases h.cases with ⟨rfl, rfl⟩ | ⟨c, cs, rfl, hc⟩
  · refine ⟨skipBlanks rest, ?_, skipBlanks_skipBlanks rest⟩
    exact readCoefficient_append .absent (hrest.imp fun _ h => h.1) (hrest.imp fun _ h => h.2)
  · have hnext : Next (fun c => isDigit c = false ∧ c ≠ '/') rest :=
      hrest.of_skipBlanks fun c hc => ⟨isDigit_of_isBlank hc, fun h => absurd hc (by rw [h]; decide)⟩
    refine ⟨rest, ?_, rfl⟩
    rw [skipBlanks_of_next (List.cons_append ▸ next_cons.2 (isBlank_of_isDigit hc))]
    exact readCoefficient_append h (hnext.imp fun _ h => h.1) (hnext.imp fun _ h => h.2)

theorem readSign_skipBlanks {a rest : List Char} {sign : Option Bool} (ha : Blanks a)
    (hrest : Next (fun c => c ≠ '-' ∧ c ≠ '+') (skipBlanks rest)) :
    ∃ more, readSign (skipBlanks (a ++ (signText sign ++ rest))) = (sign, more) ∧
      skipBlanks more = skipBlanks rest := by
  rw [skipBlanks_blanks_append ha]
  cases sign with
  | none =>
    have hread : readSign (signText none ++ skipBlanks rest) = (none, skipBlanks rest) := readSign_append hrest
    exact ⟨skipBlanks rest, hread, skipBlanks_skipBlanks rest⟩
  | some minus => cases minus <;> exact ⟨rest, rfl, rfl⟩

/-! ## Terms -/

theorem next_skipBlanks_star {c star d name : List Char} (hc : Blanks c) (hstar : star = [] ∨ star = ['*'])
    (hd : Blanks d) (hname : Next (isNameStart · = true) name) :
    Next (fun c => c = '*' ∨ isNameStart c = true) (skipBlanks (c ++ (star ++ (d ++ name)))) := by
  rw [skipBlanks_blanks_append hc]
  rcases hstar with rfl | rfl
  · rw [List.nil_append, skipBlanks_blanks_append hd,
      skipBlanks_of_next (hname.imp fun _ h => isBlank_of_isNameStart h)]
    exact hname.imp fun _ h => .inr h
  · exact next_cons.2 (.inl rfl)

theorem next_skipBlanks_coefficient {b coef rest : List Char} {coefficient : Option Coefficient} (hb : Blanks b)
    (h : SpellsCoefficient coefficient coef)
    (hrest : Next (fun c => c = '*' ∨ isNameStart c = true) (skipBlanks rest)) :
    Next (fun c => c ≠ '-' ∧ c ≠ '+') (skipBlanks (b ++ (coef ++ rest))) := by
  rw [skipBlanks_blanks_append hb]
  rcases h.cases with ⟨rfl, rfl⟩ | ⟨c, cs, rfl, hc⟩
  · rw [List.nil_append]
    refine hrest.imp fun c hc => ⟨?_, ?_⟩ <;> rintro rfl <;> exact absurd hc (by decide)
  · rw [skipBlanks_of_next (List.cons_append ▸ next_cons.2 (isBlank_of_isDigit hc))]
    refine next_cons.2 ⟨?_, ?_⟩ <;> rintro rfl <;> exact absurd hc (by decide)

/-- a term is read up to its end, and with it the white space after it -/
theorem readTerm_append {w : WrittenTerm} {text rest : List Char} (h : SpellsTerm w text)
    (hrest : Next (isNameChar · = false) rest) : readTerm (text ++ rest) = some (w, skipBlanks rest) := by
  obtain ⟨ha, hb, hcoef, hc, hstar, hd, hname, he⟩ := h
  rename_i a b coef c star d e
  have hend : Next (isNameChar · = false) (e ++ rest) :=
    Next.append (fun c hc => isNameChar_of_isBlank (he c hc)) hrest
  have hstart : Next (isNameStart · = true) (w.name.toList ++ (e ++ rest)) := by
    obtain ⟨c, cs, hcs, hc, -⟩ := isName_iff.1 hname
    rw [hcs]
    exact next_cons.2 hc
  obtain ⟨after, hafterEq⟩ : ∃ after, after = c ++ (star ++ (d ++ (w.name.toList ++ (e ++ rest)))) := ⟨_, rfl⟩
  have hafter : Next (fun c => c = '*' ∨ isNameStart c = true) (skipBlanks after) :=
    hafterEq ▸ next_skipBlanks_star hc hstar hd hstart
  obtain ⟨more, hreadSign, hmore⟩ :
      ∃ more, readSign (skipBlanks (a ++ (signText w.sign ++ (b ++ (coef ++ after))))) = (w.sign, more) ∧
        skipBlanks more = skipBlanks (b ++ (coef ++ after)) :=
    readSign_skipBlanks ha (next_skipBlanks_coefficient hb hcoef hafter)
  have hnumber : Next (fun c => isDigit c = false ∧ c ≠ '/') (skipBlanks after) := by
    refine hafter.imp fun c hc => ?_
    rcases hc with rfl | hc
    · exact ⟨by decide, by decide⟩
    · exact ⟨isDigit_of_isNameStart hc, by rintro rfl; exact absurd hc (by decide)⟩
  obtain ⟨more', hreadCoefficient, hmore'⟩ := readCoefficient_skipBlanks hb hcoef hnumber
  have hfactor : skipBlanks (skipStar (skipBlanks after)) = w.name.toList ++ (e ++ rest) :=
    hafterEq ▸ skipBlanks_star hc hstar hd hstart
  simp only [List.append_assoc]
  rw [← hafterEq]
  simp only [readTerm, hreadSign, hmore, hreadCoefficient, hmore', hfactor, readName_append hname hend,
    String.ofList_toList, skipBlanks_blanks_append he]

/-! ## What was read stands at the front of the text -/

theorem readSign_split (cs : List Char) : cs = signText (readSign cs).1 ++ (readSign cs).2 := by
  rw [readSign.eq_def]
  split <;> rfl

theorem readDenominator_split (cs : List Char) :
    ((readDenominator cs).1 = none ∧ (readDenominator cs).2 = cs) ∨
      ∃ bottom b, (readDenominator cs).1 = some bottom ∧ bottom ≠ [] ∧ Spells b bottom ∧
        cs = '/' :: (b ++ (readDenominator cs).2) := by
  rw [readDenominator.eq_def]
  split
  · next rest =>
    obtain ⟨b, hb, hrest⟩ := plainDigits_spells rest
    split
    · exact .inl ⟨rfl, rfl⟩
    · next digits more hne hread =>
      rw [hread] at hb hrest
      exact .inr ⟨digits, b, rfl, hne, hb, congrArg _ hrest⟩
  · exact .inl ⟨rfl, rfl⟩

theorem readCoefficient_split (cs : List Char) :
    ∃ text, SpellsCoefficient (readCoefficient cs).1 text ∧ cs = text ++ (readCoefficient cs).2 := by
  obtain ⟨a, ha, hcs⟩ := plainDigits_spells cs
  rw [readCoefficient]
  split
  · exact ⟨[], .absent, rfl⟩
  · next digits rest hne hread =>
    rw [hread] at ha hcs
    rcases readDenominator_split rest with ⟨hnone, hrest⟩ | ⟨bottom, b, hsome, hbottom, hb, hrest⟩
    · refine ⟨a, ?_, ?_⟩
      · simpa only [hnone] using .whole ha hne
      · rw [hrest]
        exact hcs
    · refine ⟨a ++ '/' :: b, ?_, ?_⟩
      · simpa only [hsome] using .quotient ha hb hne hbottom
      · rw [List.append_assoc, List.cons_append, ← hrest]
        exact hcs

theorem skipStar_split (cs : List Char) : ∃ star, (star = [] ∨ star = ['*']) ∧ cs = star ++ skipStar cs := by
  rw [skipStar.eq_def]
  split
  · exact ⟨['*'], .inr rfl, rfl⟩
  · exact ⟨[], .inl rfl, rfl⟩

theorem readName_split {cs rest : List Char} {name : String} (h : readName cs = some (name, rest)) :
    isName name.toList = true ∧ cs = name.toList ++ rest := by
  cases cs with
  | nil => cases h
  | cons c cs =>
    rw [readName] at h
    split at h
    · next hc =>
      cases h
      refine ⟨isName_iff.2 ⟨c, cs.takeWhile isNameChar, ?_, hc, fun d hd => List.mem_takeWhile_imp hd⟩, ?_⟩
      · rw [String.toList_ofList]
      · rw [String.toList_ofList, List.cons_append, List.takeWhile_append_dropWhile]
    · cases h

/-- what follows a name that was read does not go on with it -/
theorem next_readName {cs rest : List Char} {name : String} (h : readName cs = some (name, rest)) :
    Next (isNameChar · = false) rest := by
  cases cs with
  | nil => cases h
  | cons c cs =>
    rw [readName] at h
    split at h
    · cases h
      intro d hd
      simpa [Option.mem_def.1 hd] using List.head?_dropWhile_not isNameChar cs
    · cases h

/-- a text begins with a term: what follows the term does not go on with its name, and `rest` is what is left after
white space -/
def Begins (w : WrittenTerm) (cs rest : List Char) : Prop :=
  ∃ text more, cs = text ++ more ∧ SpellsTerm w text ∧ Next (isNameChar · = false) more ∧ rest = skipBlanks more

/-- what is read as a term is what the text begins with -/
theorem begins_of_readTerm {cs rest : List Char} {w : WrittenTerm} (h : readTerm cs = some (w, rest)) :
    Begins w cs rest := by
  simp only [readTerm] at h
  obtain ⟨a, ha, hfront⟩ := exists_blanks cs
  have hsign := readSign_split (skipBlanks cs)
  generalize readSign (skipBlanks cs) = signed at h hsign
  obtain ⟨b, hb, hmore⟩ := exists_blanks signed.2
  obtain ⟨coef, hcoef, hnumber⟩ := readCoefficient_split (skipBlanks signed.2)
  generalize readCoefficient (skipBlanks signed.2) = counted at h hcoef hnumber
  obtain ⟨c, hc, hafter⟩ := exists_blanks counted.2
  obtain ⟨star, hstar, hfactor⟩ := skipStar_split (skipBlanks counted.2)
  obtain ⟨d, hd, hbefore⟩ := exists_blanks (skipStar (skipBlanks counted.2))
  split at h
  · cases h
  · next name more hread =>
    cases h
    obtain ⟨hname, htext⟩ := readName_split hread
    refine ⟨_, more, ?_, .parts ha hb hcoef hc hstar hd hname blanks_nil, next_readName hread, rfl⟩
    simp only [List.append_assoc, List.nil_append]
    rw [← htext, ← hbefore, ← hfactor, ← hafter, ← hnumber, ← hmore, ← hsign]
    exact hfront

theorem readTerm_eq_some_iff {cs rest : List Char} {w : WrittenTerm} :
    readTerm cs = some (w, rest) ↔ Begins w cs rest := by
  constructor
  · exact begins_of_readTerm
  · rintro ⟨text, more, rfl, htext, hmore, rfl⟩
    exact readTerm_append htext hmore

theorem SpellsTerm.append_blanks {w : WrittenTerm} {text e : List Char} (h : SpellsTerm w text) (he : Blanks e) :
    SpellsTerm w (text ++ e) := by
  obtain ⟨ha, hb, hcoef, hc, hstar, hd, hname, he'⟩ := h
  rename_i a b coef c star d e'
  simp only [List.append_assoc]
  exact .parts ha hb hcoef hc hstar hd hname fun c hc => (List.mem_append.1 hc).elim (he' c) (he c)

/-- what is read as a term writes it -/
theorem readTerm_split {cs rest : List Char} {w : WrittenTerm} (h : readTerm cs = some (w, rest)) :
    ∃ text, SpellsTerm w text ∧ cs = text ++ rest := by
  obtain ⟨text, more, rfl, htext, -, rfl⟩ := begins_of_readTerm h
  obtain ⟨e, he, hmore⟩ := exists_blanks more
  refine ⟨text ++ e, htext.append_blanks he, ?_⟩
  rw [List.append_assoc, ← hmore]

theorem length_lt_of_readTerm {cs rest : List Char} {w : WrittenTerm} (h : readTerm cs = some (w, rest)) :
    rest.length < cs.length := by
  obtain ⟨text, ⟨-, -, -, -, -, -, hname, -⟩, rfl⟩ := readTerm_split h
  obtain ⟨c, name, hcs, -⟩ := isName_iff.1 hname
  simp only [List.length_append, hcs, List.length_cons]
  omega

/-! ## White space around a term -/

theorem readTerm_skipBlanks (cs : List Char) : readTerm (skipBlanks cs) = readTerm cs := by
  simp only [readTerm, skipBlanks_skipBlanks]

theorem SpellsTerm.not_blanks {w : WrittenTerm} {text : List Char} (h : SpellsTerm w text) (rest : List Char) :
    ¬ Blanks (text ++ rest) := by
  obtain ⟨-, -, -, -, -, -, hname, -⟩ := h
  obtain ⟨c, hmem, hc⟩ := exists_mem_of_isName hname
  exact fun hblank => absurd (hblank c (by simp [hmem])) (by simp [hc])

theorem SpellsTerm.rdropWhile {w : WrittenTerm} {text : List Char} (h : SpellsTerm w text) :
    SpellsTerm w (text.rdropWhile isBlank) := by
  obtain ⟨ha, hb, hcoef, hc, hstar, hd, hname, he⟩ := h
  rename_i a b coef c star d e
  have hlast : Next (isBlank · = false) w.name.toList.reverse := fun c hc =>
    isBlank_of_isNameChar (isNameChar_of_mem hname c (List.mem_reverse.1 (List.mem_of_mem_head? hc)))
  have hcut : (w.name.toList ++ e).rdropWhile isBlank = w.name.toList ++ [] := by
    rw [rdropWhile_append_blanks he, List.rdropWhile, List.append_nil]
    exact (congrArg _ (skipBlanks_of_next hlast)).trans (List.reverse_reverse _)
  have hkeep : ¬ Blanks (w.name.toList ++ e) := by
    obtain ⟨c, hmem, hc⟩ := exists_mem_of_isName hname
    exact fun hblank => absurd (hblank c (by simp [hmem])) (by simp [hc])
  simp only [← List.append_assoc _ _ (w.name.toList ++ e)]
  rw [rdropWhile_append hkeep, hcut]
  simp only [List.append_assoc]
  exact .parts ha hb hcoef hc hstar hd hname blanks_nil

end LeftSide

end Halfspace
