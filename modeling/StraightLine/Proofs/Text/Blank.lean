import Mathlib.Data.List.TakeWhile
import StraightLine.Lexeme.Basic

/-!
# Blanks and spans — where a run of characters stops

A run of characters that pass a test is cut off exactly where a character
that fails it follows (`takeWhile_append`, `dropWhile_append`). Blanks are one
such run: `trimStart` drops all of them, however they are distributed over
the texts in front. No blank can continue a name or a number, which is what
`Breaks` asks of the text behind a lexeme.
-/

namespace StraightLine

namespace Text

variable {holds : Char → Bool} {run s t b : Text}

/-! ## Runs -/

/-- No character of the class stands at the start of a text. -/
def StartsOutside (holds : Char → Bool) (t : Text) : Prop :=
  ∀ c, t.head? = some c → holds c = false

theorem startsOutside_cons {c : Char} (hc : holds c = false) : StartsOutside holds (c :: t) := by
  intro d hd
  obtain rfl : c = d := Option.some.inj hd
  exact hc

/-- **A run ends where its class does.** -/
theorem takeWhile_append (hrun : ∀ c ∈ run, holds c = true) (ht : StartsOutside holds t) :
    (run ++ t).takeWhile holds = run := by
  rw [List.takeWhile_append_of_pos hrun]
  cases t with
  | nil => simp
  | cons c t => rw [List.takeWhile_cons_of_neg (by simp [ht c rfl]), List.append_nil]

/-- And what follows it is left. -/
theorem dropWhile_append (hrun : ∀ c ∈ run, holds c = true) (ht : StartsOutside holds t) :
    (run ++ t).dropWhile holds = t := by
  rw [List.dropWhile_append_of_pos hrun]
  cases t with
  | nil => rfl
  | cons c t => rw [List.dropWhile_cons_of_neg (by simp [ht c rfl])]

/-- What a run leaves starts outside its class. -/
theorem startsOutside_dropWhile (t : Text) : StartsOutside holds (t.dropWhile holds) := by
  intro c hc
  rcases hd : t.dropWhile holds with - | ⟨d, rest⟩
  · simp [hd] at hc
  · have hne : t.dropWhile holds ≠ [] := by simp [hd]
    have hnot := List.head_dropWhile_not holds hne
    simp only [hd, List.head?_cons, Option.some.injEq] at hc
    simpa [hd, hc] using hnot

/-- The characters of a run are of its class. -/
theorem holds_of_mem_takeWhile {c : Char} (h : c ∈ t.takeWhile holds) : holds c = true :=
  List.mem_takeWhile_imp h

/-! ## Blanks -/

/-- A text of blanks. -/
def Blank (t : Text) : Prop := ∀ c ∈ t, isBlank c = true

theorem blank_nil : Blank [] := fun _ h => absurd h List.not_mem_nil

theorem Blank.append (hs : Blank s) (ht : Blank t) : Blank (s ++ t) := fun c hc =>
  (List.mem_append.mp hc).elim (hs c) (ht c)

theorem blank_takeWhile (t : Text) : Blank (t.takeWhile isBlank) := fun _ h =>
  holds_of_mem_takeWhile h

/-- The blanks in front of a text and the text without them. -/
theorem takeWhile_append_trimStart (t : Text) : t.takeWhile isBlank ++ t.trimStart = t :=
  List.takeWhile_append_dropWhile

@[simp] theorem trimStart_nil : trimStart [] = [] := rfl

/-- Blanks in front make no difference. -/
theorem trimStart_append (hb : Blank b) (t : Text) : (b ++ t).trimStart = t.trimStart :=
  List.dropWhile_append_of_pos hb

/-- A text that starts with another character is trimmed. -/
theorem trimStart_cons {c : Char} (hc : isBlank c = false) (t : Text) :
    trimStart (c :: t) = c :: t :=
  List.dropWhile_cons_of_neg (by simp [hc])

@[simp] theorem trimStart_trimStart (t : Text) : t.trimStart.trimStart = t.trimStart := by
  have h : StartsOutside isBlank t.trimStart := startsOutside_dropWhile t
  exact dropWhile_append blank_nil h

theorem trimStart_eq_nil_iff : t.trimStart = [] ↔ Blank t := by
  rw [trimStart, List.dropWhile_eq_nil_iff]
  rfl

/-- **A text with blanks before and behind it.** -/
inductive Spaced (l : Text) : Text → Prop
  | mk {b b' : Text} (hb : Blank b) (hb' : Blank b') : Spaced l (b ++ (l ++ b'))

/-! ## What can follow a lexeme -/

/-- No name or number that ends in front of a text goes on in it. -/
def Breaks (t : Text) : Prop := ∀ c, t.head? = some c → isNameChar c = false ∧ c ≠ '.'

theorem breaks_nil : Breaks [] := by simp [Breaks]

theorem breaks_cons {c : Char} {t : Text} (h : isNameChar c = false) (hdot : c ≠ '.') :
    Breaks (c :: t) := by
  intro d hd
  simp only [List.head?_cons, Option.some.injEq] at hd
  exact hd ▸ ⟨h, hdot⟩

/-- Letters by their code points. -/
theorem isAlpha_iff_toNat {c : Char} : c.isAlpha = true ↔
    (65 ≤ c.toNat ∧ c.toNat ≤ 90) ∨ (97 ≤ c.toNat ∧ c.toNat ≤ 122) := by
  change (decide ('A'.val ≤ c.val ∧ c.val ≤ 'Z'.val) ||
    (decide ('a'.val ≤ c.val) && decide (c.val ≤ 'z'.val))) = true ↔ _
  simp only [Bool.or_eq_true, Bool.and_eq_true, decide_eq_true_eq, UInt32.le_iff_toNat_le]
  rfl

theorem isDigit_iff_toNat {c : Char} : c.isDigit = true ↔ 48 ≤ c.toNat ∧ c.toNat ≤ 57 :=
  Char.isDigit_iff_toNat

/-- The characters of names by their code points. -/
theorem isNameChar_iff_toNat {c : Char} : isNameChar c = true ↔
    (65 ≤ c.toNat ∧ c.toNat ≤ 90) ∨ (97 ≤ c.toNat ∧ c.toNat ≤ 122) ∨
      (48 ≤ c.toNat ∧ c.toNat ≤ 57) ∨ c.toNat = 95 := by
  have hund : c = '_' ↔ c.toNat = 95 := by
    constructor
    · rintro rfl
      rfl
    · intro h
      exact Char.toNat_inj.mp h
  rw [isNameChar, Char.isAlphanum, Bool.or_eq_true, Bool.or_eq_true, isAlpha_iff_toNat,
    isDigit_iff_toNat, beq_iff_eq, hund]
  omega

/-- Blanks are no letters, digits or underscores. -/
theorem isNameChar_eq_false_of_isBlank {c : Char} (h : isBlank c = true) :
    isNameChar c = false := by
  simp only [isBlank, Bool.or_eq_true, Bool.and_eq_true, decide_eq_true_eq, beq_iff_eq] at h
  by_contra hne
  have hname := isNameChar_iff_toNat.mp (by simpa using hne)
  omega

theorem isBlank_eq_false_of_isNameChar {c : Char} (h : isNameChar c = true) :
    isBlank c = false := by
  by_contra hb
  simp [isNameChar_eq_false_of_isBlank (by simpa using hb)] at h

theorem isNameChar_of_isDigit {c : Char} (h : c.isDigit = true) : isNameChar c = true := by
  simp [isNameChar, Char.isAlphanum, h]

theorem isDigit_eq_false_of_isNameChar {c : Char} (h : isNameChar c = false) :
    c.isDigit = false := by
  simp only [isNameChar, Char.isAlphanum, Bool.or_eq_false_iff] at h
  exact h.1.2

/-- Blanks in front of a text that breaks a lexeme break it too. -/
theorem Breaks.blank_append (hb : Blank b) (ht : Breaks t) : Breaks (b ++ t) := by
  cases b with
  | nil => exact ht
  | cons c b =>
    have hc : isBlank c = true := hb c List.mem_cons_self
    refine breaks_cons (isNameChar_eq_false_of_isBlank hc) fun h => ?_
    rw [h] at hc
    exact absurd hc (by decide)

/-- So does a spaced text whose own first character breaks a lexeme. -/
theorem Spaced.breaks_append {l : Text} {c : Char} (hs : Spaced l s) (hl : l.head? = some c)
    (hc : isNameChar c = false) (hdot : c ≠ '.') (t : Text) : Breaks (s ++ t) := by
  obtain @⟨b, b', hb, -⟩ := hs
  obtain ⟨l, rfl⟩ := List.head?_eq_some_iff.mp hl
  rw [List.append_assoc]
  exact Breaks.blank_append hb (breaks_cons hc hdot)

/-- The first character behind the blanks is that of the spaced text. -/
theorem Spaced.head?_trimStart {l : Text} {c : Char} (hs : Spaced l s) (hl : l.head? = some c)
    (hc : isBlank c = false) (t : Text) : (s ++ t).trimStart.head? = some c := by
  obtain @⟨b, b', hb, -⟩ := hs
  obtain ⟨l, rfl⟩ := List.head?_eq_some_iff.mp hl
  rw [List.append_assoc, trimStart_append hb, List.cons_append, List.cons_append,
    trimStart_cons hc, List.head?_cons]

/-- Nothing that a lexeme could go on with is a digit. -/
theorem Breaks.startsOutside_isDigit (ht : Breaks t) : StartsOutside Char.isDigit t :=
  fun c hc => isDigit_eq_false_of_isNameChar (ht c hc).1

end Text

end StraightLine
