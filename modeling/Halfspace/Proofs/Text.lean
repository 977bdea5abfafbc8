/-
Texts that are cut at white space and read as numbers.

White space and digits exclude each other, so the next character tells a reader where a run ends. What is proved of each
reader is what it takes from the front of a text, whatever follows there:
- `skipBlanks_blanks_append`, `trim_surround`: padding is dropped; `words_append`: words with spaces between them;
- `plainDigits_append`, `groupedDigits_append`: a run that spells digits is read up to its end, and `plainDigits_spells`
  says that nothing else is read;
- `exists_spells`: the decimal text of a number spells digits that make the number again.
-/
import Halfspace.Text.Blank
import Halfspace.Text.Digit
import Mathlib.Data.List.DropRight
import Mathlib.Tactic

namespace Halfspace.Text

def Next (p : Char → Prop) (cs : List Char) : Prop := ∀ c ∈ cs.head?, p c

@[simp] theorem next_nil (p : Char → Prop) : Next p [] := by simp [Next]

@[simp] theorem next_cons {p : Char → Prop} {c : Char} {cs : List Char} : Next p (c :: cs) ↔ p c := by simp [Next]

/-- what stands before a text is next unless it is empty -/
theorem Next.append {p : Char → Prop} {a b : List Char} (ha : ∀ c ∈ a, p c) (hb : Next p b) : Next p (a ++ b) := by
  cases a with
  | nil => exact hb
  | cons c a => exact next_cons.2 (ha c List.mem_cons_self)

theorem Next.of_forall {p : Char → Prop} {cs : List Char} (h : ∀ c ∈ cs, p c) : Next p cs :=
  fun c hc => h c (List.mem_of_mem_head? hc)

/-- what follows a text that is not empty does not change what is next -/
theorem Next.extend {p : Char → Prop} {a : List Char} (h : Next p a) (hne : a ≠ []) (b : List Char) :
    Next p (a ++ b) := by
  cases a with
  | nil => exact absurd rfl hne
  | cons c a => exact next_cons.2 (next_cons.1 h)

theorem Next.of_append {p : Char → Prop} {a b : List Char} (h : Next p (a ++ b)) : Next p a := by
  cases a with
  | nil => exact next_nil p
  | cons c a => exact next_cons.2 (next_cons.1 h)

theorem Next.imp {p q : Char → Prop} {cs : List Char} (h : Next p cs) (hpq : ∀ c, p c → q c) : Next q cs :=
  fun c hc => hpq c (h c hc)

/-! ## White space -/

def Blanks (cs : List Char) : Prop := ∀ c ∈ cs, isBlank c = true

instance (cs : List Char) : Decidable (Blanks cs) := decidable_of_iff (cs.all isBlank = true) List.all_eq_true

theorem blanks_nil : Blanks [] := by simp [Blanks]

theorem skipBlanks_blanks_append {b : List Char} (hb : Blanks b) (cs : List Char) :
    skipBlanks (b ++ cs) = skipBlanks cs :=
  List.dropWhile_append_of_pos hb

theorem skipBlanks_eq_nil_iff {cs : List Char} : skipBlanks cs = [] ↔ Blanks cs := List.dropWhile_eq_nil_iff

@[simp] theorem skipBlanks_skipBlanks (cs : List Char) : skipBlanks (skipBlanks cs) = skipBlanks cs :=
  List.dropWhile_idempotent isBlank cs

theorem skipBlanks_of_next {cs : List Char} (h : Next (isBlank · = false) cs) : skipBlanks cs = cs := by
  cases cs with
  | nil => rfl
  | cons c cs => simp [skipBlanks, next_cons.1 h]

theorem next_skipBlanks (cs : List Char) : Next (isBlank · = false) (skipBlanks cs) := by
  intro c hc
  have hnot := List.head?_dropWhile_not isBlank cs
  rw [skipBlanks] at hc
  rw [Option.mem_def.1 hc] at hnot
  simpa using hnot

/-- what is next after white space is next, or white space is -/
theorem Next.of_skipBlanks {p : Char → Prop} {cs : List Char} (h : Next p (skipBlanks cs))
    (hblank : ∀ c, isBlank c = true → p c) : Next p cs := by
  cases cs with
  | nil => exact next_nil p
  | cons c cs =>
    by_cases hc : isBlank c = true
    · exact next_cons.2 (hblank c hc)
    · rwa [skipBlanks_of_next (next_cons.2 (by simpa using hc))] at h

theorem exists_blanks (cs : List Char) : ∃ b, Blanks b ∧ cs = b ++ skipBlanks cs :=
  ⟨cs.takeWhile isBlank, fun _ hc => List.mem_takeWhile_imp hc, List.takeWhile_append_dropWhile.symm⟩

theorem trim_eq (cs : List Char) : trim cs = (skipBlanks cs).rdropWhile isBlank := rfl

/-- a text that is not all white space keeps what stands before it from being cut at the end -/
theorem rdropWhile_append {cs : List Char} (hcs : ¬ Blanks cs) (a : List Char) :
    (a ++ cs).rdropWhile isBlank = a ++ cs.rdropWhile isBlank := by
  have hne : (cs.reverse.dropWhile isBlank).isEmpty = false := by
    simpa [List.dropWhile_eq_nil_iff, Blanks] using hcs
  rw [List.rdropWhile, List.reverse_append, List.dropWhile_append, hne]
  simp [List.rdropWhile]

theorem rdropWhile_append_blanks {e : List Char} (he : Blanks e) (cs : List Char) :
    (cs ++ e).rdropWhile isBlank = cs.rdropWhile isBlank := by
  induction e using List.reverseRecOn with
  | nil => rw [List.append_nil]
  | append_singleton e c ih =>
    have hc : isBlank c = true := he c (by simp)
    rw [← List.append_assoc, List.rdropWhile_concat_pos _ _ _ hc]
    exact ih fun d hd => he d (List.mem_append_left _ hd)

theorem exists_blanks_end (cs : List Char) : ∃ e, Blanks e ∧ cs = cs.rdropWhile isBlank ++ e :=
  ⟨cs.rtakeWhile isBlank, fun _ hc => List.mem_rtakeWhile_imp hc, (List.rdropWhile_append_rtakeWhile).symm⟩

/-- it makes no difference at which end a text is cut first -/
theorem trim_eq_skipBlanks (cs : List Char) : trim cs = skipBlanks (cs.rdropWhile isBlank) := by
  by_cases hcs : Blanks cs
  · rw [trim_eq, skipBlanks_eq_nil_iff.2 hcs, List.rdropWhile_eq_nil_iff.2 hcs]
    rfl
  · obtain ⟨b, hb, hsplit⟩ := exists_blanks cs
    have hrest : ¬ Blanks (skipBlanks cs) := by
      rwa [← skipBlanks_eq_nil_iff, skipBlanks_skipBlanks, skipBlanks_eq_nil_iff]
    obtain ⟨e, -, hend⟩ := exists_blanks_end (skipBlanks cs)
    have hnext : Next (isBlank · = false) ((skipBlanks cs).rdropWhile isBlank) :=
      (hend ▸ next_skipBlanks cs).of_append
    calc trim cs = skipBlanks ((skipBlanks cs).rdropWhile isBlank) := (skipBlanks_of_next hnext).symm
      _ = skipBlanks (b ++ (skipBlanks cs).rdropWhile isBlank) := (skipBlanks_blanks_append hb _).symm
      _ = skipBlanks ((b ++ skipBlanks cs).rdropWhile isBlank) := by rw [rdropWhile_append hrest]
      _ = skipBlanks (cs.rdropWhile isBlank) := by rw [← hsplit]

/-- padding at both ends makes no difference -/
theorem trim_surround {b e : List Char} (hb : Blanks b) (he : Blanks e) (cs : List Char) :
    trim (b ++ (cs ++ e)) = trim cs := by
  rw [trim_eq, trim_eq, skipBlanks_blanks_append hb]
  by_cases hcs : Blanks cs
  · rw [skipBlanks_blanks_append hcs, skipBlanks_eq_nil_iff.2 he, skipBlanks_eq_nil_iff.2 hcs]
  · have hne : (skipBlanks cs).isEmpty = false := by simpa [skipBlanks_eq_nil_iff] using hcs
    have hkeep : skipBlanks (cs ++ e) = skipBlanks cs ++ e := by
      rw [skipBlanks, List.dropWhile_append, if_neg (by simpa [skipBlanks] using hne)]
      rfl
    rw [hkeep, rdropWhile_append_blanks he]

theorem trim_of_next {cs : List Char} (hfirst : Next (isBlank · = false) cs)
    (hlast : Next (isBlank · = false) cs.reverse) : trim cs = cs := by
  rw [trim, skipBlanks_of_next hfirst, skipBlanks_of_next hlast, List.reverse_reverse]

theorem trim_of_forall {cs : List Char} (h : ∀ c ∈ cs, isBlank c = false) : trim cs = cs :=
  trim_of_next (.of_forall h) (.of_forall fun c hc => h c (List.mem_reverse.1 hc))

/-! ## Words -/

theorem exists_cutAt (p : Char → Bool) (cs : List Char) : ∃ piece pieces, cutAt p cs = piece :: pieces := by
  induction cs with
  | nil => exact ⟨[], [], rfl⟩
  | cons d cs ih =>
    obtain ⟨piece, pieces, hcut⟩ := ih
    rw [cutAt, hcut]
    by_cases hd : p d = true
    · exact ⟨[], piece :: pieces, if_pos hd⟩
    · exact ⟨d :: piece, pieces, if_neg hd⟩

/-- a text is cut at the first place where it can be -/
theorem cutAt_append {p : Char → Bool} {a rest : List Char} {c : Char} (ha : ∀ d ∈ a, p d = false)
    (hc : p c = true) : cutAt p (a ++ c :: rest) = a :: cutAt p rest := by
  induction a with
  | nil =>
    obtain ⟨piece, pieces, hcut⟩ := exists_cutAt p rest
    simp [cutAt, hcut, hc]
  | cons d a ih =>
    obtain ⟨hd, ha⟩ := List.forall_mem_cons.1 ha
    simp [cutAt, ih ha, hd]

theorem cutAt_of_forall {p : Char → Bool} {a : List Char} (ha : ∀ d ∈ a, p d = false) : cutAt p a = [a] := by
  induction a with
  | nil => rfl
  | cons d a ih =>
    obtain ⟨hd, ha⟩ := List.forall_mem_cons.1 ha
    simp [cutAt, ih ha, hd]

/-- words with a space between them -/
theorem words_append {name : List Char} {names : List (List Char)}
    (h : ∀ n ∈ name :: names, n ≠ [] ∧ ∀ c ∈ n, isBlank c = false) :
    words (name ++ names.flatMap (' ' :: ·)) = name :: names := by
  have hcut : cutAt isBlank (name ++ names.flatMap (' ' :: ·)) = name :: names := by
    induction names generalizing name with
    | nil => simpa using cutAt_of_forall (h name List.mem_cons_self).2
    | cons n names ih =>
      obtain ⟨hname, hnames⟩ := List.forall_mem_cons.1 h
      rw [List.flatMap_cons, List.cons_append, cutAt_append hname.2 (by decide), ih hnames]
  rw [words, hcut, List.filter_eq_self]
  intro n hn
  simpa using (h n hn).1

/-! ## Digits -/

def Spells (run : List Char) (digits : List Nat) : Prop := List.Forall₂ (fun c d => digit? c = some d) run digits

theorem digit?_of_isBlank {c : Char} (h : isBlank c = true) : digit? c = none := by
  have hcodes : ∀ n ∈ blankCodes, (zeroDigits.find? fun z => z ≤ n && n ≤ z + 9) = none := by decide +kernel
  rw [digit?, hcodes c.toNat (List.contains_iff_mem.1 h)]
  rfl

/-- among the first 128 characters there are ten digits -/
theorem digit?_of_toNat_lt {c : Char} (h : c.toNat < 128) :
    digit? c = if 48 ≤ c.toNat ∧ c.toNat ≤ 57 then some (c.toNat - 48) else none := by
  have hcodes : ∀ n : Fin 128, (zeroDigits.find? fun z => z ≤ n.val && n.val ≤ z + 9) =
      if 48 ≤ n.val ∧ n.val ≤ 57 then some 48 else none := by decide +kernel
  rw [digit?, hcodes ⟨c.toNat, h⟩]
  split <;> rfl

theorem isDigit_of_isBlank {c : Char} (h : isBlank c = true) : isDigit c = false := by
  rw [isDigit, digit?_of_isBlank h]
  rfl

theorem isBlank_of_isDigit {c : Char} (h : isDigit c = true) : isBlank c = false := by
  by_contra hc
  rw [isDigit_of_isBlank (by simpa using hc)] at h
  exact absurd h (by decide)

theorem isDigit_eq_false_iff {c : Char} : isDigit c = false ↔ digit? c = none := by simp [isDigit]

theorem Spells.isDigit {run : List Char} {digits : List Nat} (h : Spells run digits) :
    ∀ c ∈ run, isDigit c = true := by
  induction h with
  | nil => simp
  | cons hc _ ih => simpa [Text.isDigit, hc] using ih

theorem plainDigits_append {run rest : List Char} {digits : List Nat} (h : Spells run digits)
    (hrest : Next (Text.isDigit · = false) rest) : plainDigits (run ++ rest) = (digits, rest) := by
  induction h with
  | nil =>
    cases rest with
    | nil => rfl
    | cons c rest => simp [plainDigits, isDigit_eq_false_iff.1 (next_cons.1 hrest)]
  | cons hc _ ih => simp [plainDigits, hc, ih]

theorem plainDigits_spells (cs : List Char) :
    ∃ run, Spells run (plainDigits cs).1 ∧ cs = run ++ (plainDigits cs).2 := by
  induction cs with
  | nil => exact ⟨[], .nil, rfl⟩
  | cons c cs ih =>
    cases hc : digit? c with
    | none => exact ⟨[], by simp [plainDigits, hc, Spells], by simp [plainDigits, hc]⟩
    | some d =>
      obtain ⟨run, hrun, hcs⟩ := ih
      refine ⟨c :: run, ?_, ?_⟩
      · simp only [plainDigits, hc]
        exact .cons hc hrun
      · simp [plainDigits, hc, ← hcs]

/-- one digit and the digits after it, where no underscore follows -/
theorem groupedDigits_cons {c : Char} {d : Nat} {rest : List Char} (hc : digit? c = some d)
    (hrest : Next (· ≠ '_') rest) :
    groupedDigits (c :: rest) = (d :: (groupedDigits rest).1, (groupedDigits rest).2) := by
  rw [groupedDigits.eq_def]
  simp only [hc]
  split
  · exact absurd rfl (next_cons.1 hrest)
  · rfl

/-- a run of digits that neither a digit nor an underscore follows is read up to its end -/
theorem groupedDigits_append {run rest : List Char} {digits : List Nat} (h : Spells run digits)
    (hdigit : Next (Text.isDigit · = false) rest) (hgroup : Next (· ≠ '_') rest) :
    groupedDigits (run ++ rest) = (digits, rest) := by
  induction h with
  | nil =>
    cases rest with
    | nil => rfl
    | cons c rest => simp [groupedDigits, isDigit_eq_false_iff.1 (next_cons.1 hdigit)]
  | @cons c d run digits hc hrun ih =>
    have hnext : Next (· ≠ '_') (run ++ rest) :=
      Next.append (fun e he hbar => absurd (Spells.isDigit hrun e he) (by rw [hbar]; decide)) hgroup
    rw [List.cons_append, groupedDigits_cons hc hnext, ih]

/-! ## Decimal texts -/

theorem numberOf_map (run : List Char) :
    numberOf (run.map fun c => c.toNat - 48) = Nat.ofDigitChars 10 run 0 := by
  simp only [numberOf, Nat.ofDigitChars, List.foldl_map]
  rfl

/-- the decimal text of a number spells digits that make the number again -/
theorem exists_spells (n : Nat) :
    ∃ digits, digits ≠ [] ∧ Spells (toString n).toList digits ∧ numberOf digits = n := by
  have htext : (toString n).toList = Nat.toDigits 10 n := Nat.toList_repr
  refine ⟨(Nat.toDigits 10 n).map fun c => c.toNat - 48, ?_, ?_, ?_⟩
  · simp
  · rw [htext, Spells, List.forall₂_map_right_iff, List.forall₂_same]
    intro c hc
    have hdigit := Nat.isDigit_of_mem_toDigits (by decide) (by decide) hc
    obtain ⟨hlow, hhigh⟩ : 48 ≤ c.toNat ∧ c.toNat ≤ 57 := Char.isDigit_iff_toNat.1 hdigit
    rw [digit?_of_toNat_lt (by omega), if_pos ⟨hlow, hhigh⟩]
  · rw [numberOf_map, Nat.ofDigitChars_toDigits (by decide) (by decide)]

end Halfspace.Text
