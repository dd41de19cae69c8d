import StraightLine.Lexeme.Class
import StraightLine.Proofs.Lexeme.Literal

/-!
# Members — the classes of lexemes as sets of texts

Every class is given here as a plain set of texts, `LexemeClass.Member`, by
the parts its texts are put together from. What a reader takes is a prefix of
the text ahead and a member of its class (`member_of_lexeme?`); that it takes
the longest one is a matter of what can follow a member.
-/

namespace StraightLine

namespace Text

variable {t l r front : Text} {holds : Char → Bool} {lower upper : Char}

/-! ## The sets -/

/-- **One character or more that pass a test.** -/
structure Run (holds : Char → Bool) (t : Text) : Prop where
  nonempty : t ≠ []
  all : ∀ c ∈ t, holds c = true

theorem Run.digits (h : Run Char.isDigit t) : Digits t := ⟨h.nonempty, h.all⟩

theorem Digits.run (h : Digits t) : Run Char.isDigit t := ⟨h.nonempty, h.all⟩

/-- **Integers of a base**: an optional minus, a zero, the letter of the base
and its digits. -/
inductive BasedLexeme (lower upper : Char) (isDigit : Char → Bool) : Text → Prop
  | mk {minus digits : Text} {letter : Char} (hm : IsMinus minus)
      (hl : letter = lower ∨ letter = upper) (hds : Run isDigit digits) :
      BasedLexeme lower upper isDigit (minus ++ '0' :: letter :: digits)

/-- **Floats without an exponent**: an optional minus and digits on both sides
of a point. -/
inductive PlainFloatLexeme : Text → Prop
  | mk {minus whole part : Text} (hm : IsMinus minus) (hw : Digits whole) (hp : Digits part) :
      PlainFloatLexeme (minus ++ (whole ++ '.' :: part))

/-- **Floats with an exponent**: one without, a letter, an optional sign and
digits. -/
inductive ExponentFloatLexeme : Text → Prop
  | mk {mantissa sign ds : Text} {letter : Char} (hm : PlainFloatLexeme mantissa)
      (hl : letter = 'e' ∨ letter = 'E') (hs : IsExponentSign sign) (hds : Digits ds) :
      ExponentFloatLexeme (mantissa ++ letter :: (sign ++ ds))

/-- One character of a quoted text: any but the quote and the backslash, or
any but the line feed behind a backslash. -/
inductive QuotedItem (quote : Char) : Text → Prop
  | plain {c : Char} (hq : c ≠ quote) (hb : c ≠ '\\') : QuotedItem quote [c]
  | escaped {c : Char} (hc : c ≠ '\n') : QuotedItem quote ['\\', c]

/-- The characters of a string and the quote that ends it. -/
inductive StringEnd : Text → Prop
  | quote : StringEnd ['"']
  | item {i t : Text} (hi : QuotedItem '"' i) (ht : StringEnd t) : StringEnd (i ++ t)

/-- **Strings**: characters between two double quotes. -/
inductive StringLexeme : Text → Prop
  | mk {t : Text} (h : StringEnd t) : StringLexeme ('"' :: t)

/-- **Characters**: one between two single quotes. -/
inductive CharLexeme : Text → Prop
  | mk {i : Text} (hi : QuotedItem '\'' i) : CharLexeme ('\'' :: (i ++ ['\'']))

/-! ## Readers -/

/-- What reads something behind a text in front of it. -/
theorem behind_eq_some {x : Option (Text × Text)} (h : behind front x = some (l, r)) :
    ∃ l', x = some (l', r) ∧ l = front ++ l' := by
  obtain ⟨⟨l', r'⟩, hx, heq⟩ := Option.map_eq_some_iff.mp h
  obtain ⟨rfl, rfl⟩ := Prod.mk.inj heq
  exact ⟨l', hx, rfl⟩

theorem spanSome?_eq_some (h : spanSome? holds t = some (l, r)) : t = l ++ r ∧ Run holds l := by
  rw [spanSome?] at h
  split at h
  · cases h
  · rename_i hne
    obtain ⟨rfl, rfl⟩ := Prod.mk.inj (Option.some.inj h)
    exact ⟨List.takeWhile_append_dropWhile.symm, by simpa using hne,
      fun c hc => holds_of_mem_takeWhile hc⟩

theorem basedLexeme_of_basedLexeme? (h : basedLexeme? lower upper holds t = some (l, r)) :
    t = l ++ r ∧ BasedLexeme lower upper holds l := by
  -- the reader branches on the texts of the span, so the span is named first
  obtain ⟨hm, happ⟩ := spanMinus_sound t
  rcases hspan : spanMinus t with ⟨minus, u⟩
  rw [hspan] at hm happ
  simp only [basedLexeme?, hspan] at h
  split at h
  · rename_i letter u
    split at h
    · rename_i hletter
      obtain ⟨ds, hl, rfl⟩ := behind_eq_some h
      obtain ⟨rfl, hds⟩ := spanSome?_eq_some hl
      rw [← happ, List.append_assoc minus]
      exact ⟨by simp, .mk hm hletter hds⟩
    · cases h
  · cases h

theorem plainFloatLexeme_of_plainFloatLexeme? (h : plainFloatLexeme? t = some (l, r)) :
    t = l ++ r ∧ PlainFloatLexeme l := by
  rw [plainFloatLexeme?] at h
  split at h
  · rename_i whole u hwhole
    obtain ⟨rfl, n, hint⟩ := integerLexeme_of_integerLexeme? hwhole
    obtain ⟨part, hpart, rfl⟩ := behind_eq_some h
    obtain ⟨rfl, hp⟩ := spanSome?_eq_some hpart
    rw [List.append_assoc whole]
    refine ⟨by simp, ?_⟩
    cases hint with
    | plain hds => exact .mk (.inl rfl) hds hp.digits
    | minus hds => exact .mk (.inr rfl) hds hp.digits
  · cases h

theorem exponentFloatLexeme_of_exponentFloatLexeme? (h : exponentFloatLexeme? t = some (l, r)) :
    t = l ++ r ∧ ExponentFloatLexeme l := by
  rw [exponentFloatLexeme?] at h
  split at h
  · rename_i mantissa letter u hmantissa
    obtain ⟨rfl, hm⟩ := plainFloatLexeme_of_plainFloatLexeme? hmantissa
    obtain ⟨hs, happ⟩ := spanExponentSign_sound u
    rcases hspan : spanExponentSign u with ⟨sign, u'⟩
    rw [hspan] at hs happ
    simp only [hspan] at h
    split at h
    · rename_i hletter
      obtain ⟨ds, hl, rfl⟩ := behind_eq_some h
      obtain ⟨rfl, hds⟩ := spanSome?_eq_some hl
      rw [← happ, List.append_assoc mantissa]
      exact ⟨by simp, .mk hm hletter hs hds.digits⟩
    · cases h
  · cases h

theorem stringEnd_of_stringEnd? (h : stringEnd? t = some (l, r)) : t = l ++ r ∧ StringEnd l := by
  fun_induction stringEnd? t generalizing l with
  | case1 => cases h
  | case2 t =>
    obtain ⟨rfl, rfl⟩ := Prod.mk.inj (Option.some.inj h)
    exact ⟨rfl, .quote⟩
  | case3 t => cases h
  | case4 c t hc ih =>
    obtain ⟨l', hl', rfl⟩ := behind_eq_some h
    obtain ⟨rfl, hend⟩ := ih hl'
    exact ⟨rfl, .item (.escaped hc) hend⟩
  | case5 => cases h
  | case6 c t hquote hescaped hlast ih =>
    obtain ⟨l', hl', rfl⟩ := behind_eq_some h
    obtain ⟨rfl, hend⟩ := ih hl'
    refine ⟨rfl, .item (.plain hquote ?_) hend⟩
    rintro rfl
    rcases hend' : l' ++ r with - | ⟨d, u⟩
    · exact hlast rfl hend'
    · exact hescaped d u rfl hend'

theorem stringLexeme_of_stringLexeme? (h : stringLexeme? t = some (l, r)) :
    t = l ++ r ∧ StringLexeme l := by
  unfold stringLexeme? at h
  split at h
  · obtain ⟨l', hl', rfl⟩ := behind_eq_some h
    obtain ⟨rfl, hend⟩ := stringEnd_of_stringEnd? hl'
    exact ⟨rfl, .mk hend⟩
  · cases h

theorem charLexeme_of_charLexeme? (h : charLexeme? t = some (l, r)) :
    t = l ++ r ∧ CharLexeme l := by
  unfold charLexeme? at h
  split at h
  · split at h
    · cases h
    · rename_i hc
      obtain ⟨rfl, rfl⟩ := Prod.mk.inj (Option.some.inj h)
      exact ⟨rfl, .mk (.escaped hc)⟩
  · split at h
    · cases h
    · rename_i hc
      obtain ⟨hq, hb⟩ := not_or.mp hc
      obtain ⟨rfl, rfl⟩ := Prod.mk.inj (Option.some.inj h)
      exact ⟨rfl, .mk (.plain hq hb)⟩
  · cases h

end Text

namespace LexemeClass

/-- **The texts of a class.** -/
def Member : LexemeClass → Text → Prop
  | identifier => Text.NameLexeme
  | decimalInteger => fun t => ∃ n, Text.IntegerLexeme t n
  | binaryInteger => Text.BasedLexeme 'b' 'B' fun c => c == '0' || c == '1'
  | octalInteger => Text.BasedLexeme 'o' 'O' fun c => '0' ≤ c && c ≤ '7'
  | hexInteger =>
    Text.BasedLexeme 'x' 'X' fun c =>
      c.isDigit || ('a' ≤ c && c ≤ 'f') || ('A' ≤ c && c ≤ 'F')
  | plainFloat => Text.PlainFloatLexeme
  | exponentFloat => Text.ExponentFloatLexeme
  | string => Text.StringLexeme
  | char => Text.CharLexeme

/-- **What a class takes** is a prefix of the text ahead, and one of its
members. -/
theorem member_of_lexeme? {k : LexemeClass} {t l r : Text} (h : k.lexeme? t = some (l, r)) :
    t = l ++ r ∧ k.Member l := by
  cases k with
  | identifier => exact Text.nameLexeme_of_nameLexeme? h
  | decimalInteger => exact Text.integerLexeme_of_integerLexeme? h
  | binaryInteger => exact Text.basedLexeme_of_basedLexeme? h
  | octalInteger => exact Text.basedLexeme_of_basedLexeme? h
  | hexInteger => exact Text.basedLexeme_of_basedLexeme? h
  | plainFloat => exact Text.plainFloatLexeme_of_plainFloatLexeme? h
  | exponentFloat => exact Text.exponentFloatLexeme_of_exponentFloatLexeme? h
  | string => exact Text.stringLexeme_of_stringLexeme? h
  | char => exact Text.charLexeme_of_charLexeme? h

end LexemeClass

end StraightLine
