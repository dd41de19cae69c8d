import StraightLine.Proofs.Lexeme.Member

/-!
# Shapes of lexemes — what the readers of the classes can take

A reader of any class takes a prefix of the text ahead. Strings and characters
start with a quote; the members of every other class are made of letters,
digits, underscores, points and signs alone, so no bracket is ever part of a
number or a name (`lexeme?_shape`).
-/

namespace StraightLine

namespace Text

variable {t l r : Text} {holds : Char → Bool}

/-- The characters of numbers and names. -/
def isPlainChar (c : Char) : Bool := isNameChar c || c == '.' || c == '-' || c == '+'

theorem isPlainChar_of_isNameChar {c : Char} (h : isNameChar c = true) :
    isPlainChar c = true := by
  simp [isPlainChar, h]

theorem isPlainChar_of_isDigit {c : Char} (h : c.isDigit = true) : isPlainChar c = true :=
  isPlainChar_of_isNameChar (isNameChar_of_isDigit h)

/-- A text of such characters. -/
def PlainChars (t : Text) : Prop := ∀ c ∈ t, isPlainChar c = true

instance : Decidable (PlainChars t) := decidable_of_iff (t.all isPlainChar = true) List.all_eq_true

theorem PlainChars.append {s t : Text} (hs : PlainChars s) (ht : PlainChars t) :
    PlainChars (s ++ t) := fun c hc =>
  (List.mem_append.mp hc).elim (hs c) (ht c)

/-- No other character stands in such a text. -/
theorem PlainChars.not_mem {c : Char} (h : PlainChars t) (hc : isPlainChar c = false) : c ∉ t :=
  fun hmem => Bool.false_ne_true (hc.symm.trans (h c hmem))

theorem plainChars_nil : PlainChars [] := fun _ h => absurd h List.not_mem_nil

theorem PlainChars.cons {c : Char} (hc : isPlainChar c = true) (ht : PlainChars t) :
    PlainChars (c :: t) :=
  List.forall_mem_cons.mpr ⟨hc, ht⟩

theorem AllDigits.plainChars (h : AllDigits t) : PlainChars t := fun c hc =>
  isPlainChar_of_isDigit (h c hc)

theorem IsMinus.plainChars (h : IsMinus t) : PlainChars t := by
  rcases h with rfl | rfl
  · exact plainChars_nil
  · exact .cons (by decide) plainChars_nil

theorem IsExponentSign.plainChars (h : IsExponentSign t) : PlainChars t := by
  rcases h with rfl | rfl | rfl
  · exact plainChars_nil
  · exact .cons (by decide) plainChars_nil
  · exact .cons (by decide) plainChars_nil

theorem IntegerLexeme.plainChars {n : Int} (h : IntegerLexeme l n) : PlainChars l := by
  cases h with
  | plain hds => exact hds.all.plainChars
  | minus hds => exact .cons (by decide) hds.all.plainChars

theorem FloatLexeme.plainChars (h : FloatLexeme l) : PlainChars l := by
  obtain ⟨hm, hw, hp, -, he⟩ := h
  refine (hm.plainChars.append hw.plainChars).append (.cons (by decide) (hp.plainChars.append ?_))
  cases he with
  | none => exact plainChars_nil
  | some he hs hds =>
    refine .cons ?_ (hs.plainChars.append hds.all.plainChars)
    rcases he with rfl | rfl
    · decide
    · decide

theorem NameLexeme.plainChars (h : NameLexeme l) : PlainChars l := by
  obtain ⟨hc, hcs⟩ := h
  exact .cons (isPlainChar_of_isNameChar (isNameChar_of_isNameStart hc)) fun d hd =>
    isPlainChar_of_isNameChar (hcs d hd)

/-! ## Digits of the bases -/

theorem isNameChar_of_isBinaryDigit {c : Char} (h : (c == '0' || c == '1') = true) :
    isNameChar c = true := by
  simp only [Bool.or_eq_true, beq_iff_eq] at h
  rcases h with rfl | rfl
  · decide
  · decide

theorem isNameChar_of_isOctalDigit {c : Char} (h : ('0' ≤ c && c ≤ '7') = true) :
    isNameChar c = true := by
  simp only [Bool.and_eq_true, decide_eq_true_eq, Char.le_def, UInt32.le_iff_toNat_le] at h
  change 48 ≤ c.toNat ∧ c.toNat ≤ 55 at h
  rw [isNameChar_iff_toNat]
  omega

theorem isNameChar_of_isHexDigit {c : Char}
    (h : (c.isDigit || ('a' ≤ c && c ≤ 'f') || ('A' ≤ c && c ≤ 'F')) = true) :
    isNameChar c = true := by
  simp only [Bool.or_eq_true, Bool.and_eq_true, decide_eq_true_eq, Char.le_def,
    UInt32.le_iff_toNat_le, isDigit_iff_toNat] at h
  change ((48 ≤ c.toNat ∧ c.toNat ≤ 57) ∨ 97 ≤ c.toNat ∧ c.toNat ≤ 102) ∨
    65 ≤ c.toNat ∧ c.toNat ≤ 70 at h
  rw [isNameChar_iff_toNat]
  omega

/-! ## Members -/

theorem BasedLexeme.plainChars {lower upper : Char} (hlower : isPlainChar lower = true)
    (hupper : isPlainChar upper = true) (hholds : ∀ c, holds c = true → isNameChar c = true)
    (h : BasedLexeme lower upper holds l) : PlainChars l := by
  obtain ⟨hm, hl, hds⟩ := h
  refine hm.plainChars.append (.cons (by decide) (.cons ?_ fun c hc => ?_))
  · rcases hl with rfl | rfl
    · exact hlower
    · exact hupper
  · exact isPlainChar_of_isNameChar (hholds c (hds.all c hc))

theorem PlainFloatLexeme.plainChars (h : PlainFloatLexeme l) : PlainChars l := by
  obtain ⟨hm, hw, hp⟩ := h
  exact hm.plainChars.append (hw.all.plainChars.append (.cons (by decide) hp.all.plainChars))

theorem ExponentFloatLexeme.plainChars (h : ExponentFloatLexeme l) : PlainChars l := by
  obtain ⟨hm, hl, hs, hds⟩ := h
  refine hm.plainChars.append (.cons ?_ (hs.plainChars.append hds.all.plainChars))
  rcases hl with rfl | rfl
  · decide
  · decide

end Text

namespace LexemeClass

variable {k : LexemeClass} {t l r : Text}

/-- A member is quoted, or consists of the characters of numbers and names. -/
theorem Member.plain_or_quoted (h : k.Member l) :
    Text.PlainChars l ∨ Text.StringLexeme l ∨ Text.CharLexeme l := by
  cases k with
  | identifier => exact .inl (Text.NameLexeme.plainChars h)
  | decimalInteger =>
    obtain ⟨n, hn⟩ := h
    exact .inl hn.plainChars
  | binaryInteger =>
    exact .inl (Text.BasedLexeme.plainChars (by decide) (by decide)
      (fun c hc => Text.isNameChar_of_isBinaryDigit hc) h)
  | octalInteger =>
    exact .inl (Text.BasedLexeme.plainChars (by decide) (by decide)
      (fun c hc => Text.isNameChar_of_isOctalDigit hc) h)
  | hexInteger =>
    exact .inl (Text.BasedLexeme.plainChars (by decide) (by decide)
      (fun c hc => Text.isNameChar_of_isHexDigit hc) h)
  | plainFloat => exact .inl (Text.PlainFloatLexeme.plainChars h)
  | exponentFloat => exact .inl (Text.ExponentFloatLexeme.plainChars h)
  | string => exact .inr (.inl h)
  | char => exact .inr (.inr h)

/-- A member starts with a quote, or consists of the characters of numbers and
names. -/
theorem Member.shape (h : k.Member l) :
    Text.PlainChars l ∨ l.head? = some '"' ∨ l.head? = some '\'' := by
  rcases h.plain_or_quoted with hplain | hstring | hchar
  · exact .inl hplain
  · cases hstring
    exact .inr (.inl rfl)
  · cases hchar
    exact .inr (.inr rfl)

/-- **What a class takes**: a prefix of the text ahead, which is a quoted one
or consists of the characters of numbers and names. -/
theorem lexeme?_shape (h : k.lexeme? t = some (l, r)) :
    t = l ++ r ∧ (Text.PlainChars l ∨ l.head? = some '"' ∨ l.head? = some '\'') :=
  (member_of_lexeme? h).imp_right Member.shape

end LexemeClass

end StraightLine
