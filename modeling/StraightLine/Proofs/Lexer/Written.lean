import Mathlib.Data.List.Forall2
import StraightLine.Lexer.Standard
import StraightLine.Proofs.Pattern.Preference

/-!
# The written table — rules of the language as patterns

The rules of the language are written as patterns, each put behind an anchor:
a keyword as it is spelled, a symbol with a backslash in front of the
characters that have a meaning in patterns, and a class of lexemes as
`LexemeClass.written` has it. What a standard rule finds is the leftmost match
of its pattern, the preferred one (`standard_asWritten`): every pattern reads
one part behind the other, and where a part could go on the next one does not
start.
-/

namespace StraightLine

/-! ## The table -/

/-- The pattern of a class as it is written. -/
def LexemeClass.written : LexemeClass → String
  | identifier => "[a-zA-Z_][a-zA-Z0-9_]*"
  | decimalInteger => "-?[0-9]+"
  | binaryInteger => "-?0[bB][01]+"
  | octalInteger => "-?0[oO][0-7]+"
  | hexInteger => "-?0[xX][0-9a-fA-F]+"
  | plainFloat => "-?[0-9]+\\.[0-9]+"
  | exponentFloat => "-?[0-9]+\\.[0-9]+[eE][+-]?[0-9]+"
  | string => "\"(?:[^\"\\\\]|\\\\.)*\""
  | char => "'(?:[^'\\\\]|\\\\.)'"

/-- Every class. -/
def LexemeClass.all : List LexemeClass :=
  [.identifier, .decimalInteger, .binaryInteger, .octalInteger, .hexInteger, .plainFloat,
    .exponentFloat, .string, .char]

/-- The characters of symbols that mean something else in patterns. -/
def patternSigns : List Char :=
  ['(', ')', '[', ']', '\x7b', '\x7d', '.', '?', '+', '*', '|', '^']

/-- A text as a pattern of just this text. -/
def Text.escaped (t : Text) : Text :=
  t.flatMap fun c => if patternSigns.contains c then ['\\', c] else [c]

/-- **The table of the language**: kinds and their patterns. -/
def Lexicon.written : List (TokenKind × Text) :=
  Keyword.all.map (fun k => (.keyword k, k.spelling.toList)) ++
    LexemeClass.all.map (fun k => (k.kind, k.written.toList)) ++
    Symbol.all.map fun s => (.symbol s, Text.escaped s.spelling.toList)

/-- **A rule as it is written**: its text behind an anchor is a pattern, and
what it finds is the leftmost match of this pattern. -/
def Rule.AsWritten (r : Rule) (w : TokenKind × Text) : Prop :=
  r.kind = w.1 ∧ ∃ p, Pattern.ofText? ("^(?:".toList ++ w.2 ++ [')']) = .ok p ∧
    ∀ t, r.sought.find? t = p.leftmostFirst? t

/-! ## Sets of characters -/

namespace CharSet

theorem char_le_iff {c d : Char} : c ≤ d ↔ c.toNat ≤ d.toNat := by
  rw [Char.le_def, UInt32.le_iff_toNat_le]
  rfl

theorem toNat_le_lastCode (c : Char) : c.toNat ≤ 1114111 := by
  have h := c.valid
  change c.toNat < 0xd800 ∨ 0xdfff < c.toNat ∧ c.toNat < 0x110000 at h
  omega

theorem holds_iff {s : CharSet} {c : Char} :
    s.holds c = true ↔ ∃ r ∈ s.intervals, r.1 ≤ c.toNat ∧ c.toNat ≤ r.2 := by
  simp [CharSet.holds, hasCode, inRanges]

/-- The digits. -/
def decimal : CharSet := ⟨[(48, 57)]⟩

theorem holds_decimal (c : Char) : decimal.holds c = c.isDigit := by
  rw [Bool.eq_iff_iff, holds_iff, Text.isDigit_iff_toNat]
  simp [decimal]

/-- Two characters, the one with the greater code point first. -/
theorem holds_pair (d e c : Char) :
    (⟨[(d.toNat, d.toNat), (e.toNat, e.toNat)]⟩ : CharSet).holds c = (c == e || c == d) := by
  rw [Bool.eq_iff_iff, holds_iff]
  simp [← Char.toNat_inj]
  omega

/-- All characters but a quote and the backslash. -/
theorem holds_others {q : Nat} (quote : Char) (hq : quote.toNat = q + 1) (hlt : q < 90) (c : Char) :
    (⟨[(0, q), (q + 2, 91), (93, 1114111)]⟩ : CharSet).holds c = (c != quote && c != '\\') := by
  have hlast := toNat_le_lastCode c
  rw [Bool.eq_iff_iff, holds_iff]
  simp [← Char.toNat_inj, hq]
  omega

end CharSet

/-! ## The patterns of the classes -/

namespace LexemeClass

/-- One character or more of a set. -/
def run (chars : CharSet) : Pattern := .repetition true 1 none (.set chars)

/-- An optional minus in front. -/
def signed (p : Pattern) : Pattern := .seq (.repetition true 0 (some 1) (.literal ['-'])) p

/-- An integer of a base, by the sets of its letters and its digits. -/
def based (letters digits : CharSet) : Pattern :=
  signed (.seq (.literal ['0']) (.seq (.set letters) (run digits)))

/-- Digits, a point and what follows it. -/
def pointed (p : Pattern) : Pattern := signed (.seq (run .decimal) (.seq (.literal ['.']) p))

/-- A character of a quoted text, by the set of those that stand for
themselves. -/
def item (others : CharSet) : Pattern :=
  .alt (.set others) (.seq (.literal ['\\']) (.set ⟨[(0, 9), (11, 1114111)]⟩))

/-- The pattern of a class behind the anchor. -/
def pattern : LexemeClass → Pattern
  | identifier =>
    .seq (.set ⟨[(65, 90), (95, 95), (97, 122)]⟩)
      (.repetition true 0 none (.set ⟨[(48, 57), (65, 90), (95, 95), (97, 122)]⟩))
  | decimalInteger => signed (run .decimal)
  | binaryInteger => based ⟨[(66, 66), (98, 98)]⟩ ⟨[(48, 49)]⟩
  | octalInteger => based ⟨[(79, 79), (111, 111)]⟩ ⟨[(48, 55)]⟩
  | hexInteger => based ⟨[(88, 88), (120, 120)]⟩ ⟨[(48, 57), (65, 70), (97, 102)]⟩
  | plainFloat => pointed (run .decimal)
  | exponentFloat =>
    pointed (.seq (run .decimal) (.seq (.set ⟨[(69, 69), (101, 101)]⟩)
      (.seq (.repetition true 0 (some 1) (.set ⟨[(43, 43), (45, 45)]⟩)) (run .decimal))))
  | string =>
    .seq (.literal ['"'])
      (.seq (.repetition true 0 none (item ⟨[(0, 33), (35, 91), (93, 1114111)]⟩))
        (.literal ['"']))
  | char =>
    .seq (.literal ['\''])
      (.seq (item ⟨[(0, 38), (40, 91), (93, 1114111)]⟩) (.literal ['\'']))

/-- This is how the written pattern is read. -/
theorem ofText?_written (k : LexemeClass) :
    Pattern.ofText? ("^(?:".toList ++ k.written.toList ++ [')']) =
      .ok (.seq (.look .textStart) k.pattern) := by
  cases k
  all_goals decide +kernel

end LexemeClass

namespace Text

variable {f g : Text → Option (Text × Text)} {holds holds' : Char → Bool} {t : Text}

/-- A character of the class stands at the start of a text. -/
def StartsInside (holds : Char → Bool) (t : Text) : Prop := ∃ c u, t = c :: u ∧ holds c = true

theorem startsInside_of_one (h : (one holds t).isSome) : StartsInside holds t := by
  obtain ⟨⟨l, r⟩, h⟩ := Option.isSome_iff_exists.mp h
  obtain ⟨c, hc, -, rfl⟩ := one_eq_some_iff.mp h
  exact ⟨c, r, rfl, hc⟩

/-- A run of one class does not start with a character of another. -/
theorem StartsInside.spanSome?_eq_none (ht : StartsInside holds' t)
    (hout : ∀ c, holds' c = true → holds c = false) : spanSome? holds t = none := by
  obtain ⟨c, u, rfl, hc⟩ := ht
  exact Text.spanSome?_eq_none (startsOutside_cons (hout c hc))

/-- Nor does what begins with one character of that class. -/
theorem StartsInside.andThen_one (ht : StartsInside holds' t)
    (hout : ∀ c, holds' c = true → holds c = false) : andThen (one holds) g t = none := by
  obtain ⟨c, u, rfl, hc⟩ := ht
  exact andThen_one_of_neg (hout c hc) g u

theorem ne_nil_of_one {l r : Text} (h : one holds t = some (l, r)) : l ≠ [] := by
  obtain ⟨c, -, rfl, -⟩ := one_eq_some_iff.mp h
  exact List.cons_ne_nil c []

end Text

namespace LexemeClass

open Pattern

variable {chars : CharSet} {holds : Char → Bool} {p : Pattern}
  {f : Text → Option (Text × Text)} {more : Text → Prop}

theorem prefers_run (h : ∀ c, chars.holds c = holds c) :
    (run chars).Prefers (Text.spanSome? holds) (Text.StartsInside holds) := by
  rw [← Text.one_many]
  exact (Decided.plus (decided_set h) fun _ _ _ => Text.ne_nil_of_one).mono
    fun _ => Text.startsInside_of_one

theorem prefers_signed (h : p.Prefers f more) (hf : ∀ t, t.StartsInside (· == '-') → f t = none) :
    (signed p).Prefers (Text.andThen (fun t => some t.spanMinus) f) more := by
  rw [← Text.optional_minus]
  exact ((decided_char fun _ => rfl).optional.mono fun _ => Text.startsInside_of_one).seq h hf

/-- A digit is no other character. -/
theorem beq_eq_false_of_isDigit {c d : Char} (hd : d.isDigit = false) (hc : c.isDigit = true) :
    (c == d) = false :=
  beq_eq_false_iff_ne.mpr fun heq => Bool.false_ne_true (hd.symm.trans (heq ▸ hc))

theorem isDigit_of_minus (c : Char) (h : (c == '-') = true) : c.isDigit = false := by
  rw [beq_iff_eq.mp h]
  rfl

theorem prefers_integer :
    (signed (run .decimal)).Prefers Text.integerLexeme? (Text.StartsInside Char.isDigit) := by
  rw [← Text.minus_digits]
  exact prefers_signed (prefers_run CharSet.holds_decimal)
    fun t ht => ht.spanSome?_eq_none isDigit_of_minus

theorem prefers_based {letters : CharSet} {lower upper : Char}
    (hletters : ∀ c, letters.holds c = (c == lower || c == upper))
    (hdigits : ∀ c, chars.holds c = holds c) :
    (based letters chars).Prefers (Text.basedLexeme? lower upper holds)
      (Text.StartsInside holds) := by
  rw [← Text.minus_based]
  have hrun := (decided_set hletters).seq (prefers_run hdigits) fun _ h => h.elim
  have hzero := (decided_char (c := '0') fun _ => rfl).seq hrun fun _ h => h.elim
  refine prefers_signed hzero fun t ht => ht.andThen_one fun c hc => ?_
  rw [beq_iff_eq.mp hc]
  rfl

theorem prefers_pointed (h : p.Prefers f more) :
    (pointed p).Prefers
      (Text.andThen Text.integerLexeme? (Text.andThen (Text.one (· == '.')) f)) more := by
  rw [← Text.minus_digits, Text.andThen_assoc]
  have hpoint := (decided_char (c := '.') fun _ => rfl).seq h fun _ h => h.elim
  have hdigits := (prefers_run CharSet.holds_decimal).seq hpoint fun t ht =>
    ht.andThen_one fun c hc => beq_eq_false_of_isDigit (by decide) hc
  refine prefers_signed hdigits fun t ht => ?_
  rw [Text.andThen, ht.spanSome?_eq_none isDigit_of_minus]
  rfl

theorem prefers_plainFloat :
    (pattern .plainFloat).Prefers Text.plainFloatLexeme? (Text.StartsInside Char.isDigit) := by
  rw [← Text.integer_part]
  exact prefers_pointed (prefers_run CharSet.holds_decimal)

theorem prefers_exponentFloat :
    (pattern .exponentFloat).Prefers Text.exponentFloatLexeme?
      (Text.StartsInside Char.isDigit) := by
  rw [← Text.float_exponent, ← Text.integer_part, Text.andThen_assoc, Text.andThen_assoc]
  have hdigits := prefers_run CharSet.holds_decimal
  have hsigns := (decided_set (CharSet.holds_pair '+' '-')).optional.mono
    fun _ => Text.startsInside_of_one
  have hsign := hsigns.seq hdigits fun t ht => ht.spanSome?_eq_none fun c hc => by
    rcases Bool.or_eq_true_iff.mp hc with hc | hc
    · exact isDigit_of_minus c hc
    · rw [beq_iff_eq.mp hc]
      rfl
  rw [Text.optional_exponentSign] at hsign
  have hexponent := (decided_set (CharSet.holds_pair 'E' 'e')).seq hsign fun _ h => h.elim
  refine prefers_pointed (hdigits.seq hexponent fun t ht => ht.andThen_one fun c hc => ?_)
  rw [beq_eq_false_of_isDigit (by decide) hc, beq_eq_false_of_isDigit (by decide) hc]
  rfl

theorem prefers_identifier :
    (pattern .identifier).Prefers Text.nameLexeme? (Text.StartsInside Text.isNameChar) := by
  rw [← Text.one_many_nameLexeme?]
  have hstart : ∀ c, (⟨[(65, 90), (95, 95), (97, 122)]⟩ : CharSet).holds c =
      Text.isNameStart c := by
    intro c
    rw [Bool.eq_iff_iff, CharSet.holds_iff]
    simp [Text.isNameStart, Text.isAlpha_iff_toNat, ← Char.toNat_inj]
    omega
  have hchar : ∀ c, (⟨[(48, 57), (65, 90), (95, 95), (97, 122)]⟩ : CharSet).holds c =
      Text.isNameChar c := by
    intro c
    rw [Bool.eq_iff_iff, CharSet.holds_iff, Text.isNameChar_iff_toNat]
    simp
    omega
  exact (decided_set hstart).seq (((decided_set hchar).many fun _ _ _ => Text.ne_nil_of_one).mono
    fun _ => Text.startsInside_of_one) fun _ h => h.elim

/-- One character of a quoted text, which starts with no quote. -/
theorem decided_item {quote : Char} (h : ∀ c, chars.holds c = (c != quote && c != '\\')) :
    (item chars).Decided (Text.quotedItem quote) := by
  have hbreak : ∀ c, (⟨[(0, 9), (11, 1114111)]⟩ : CharSet).holds c = (c != '\n') := by
    intro c
    have hlast := CharSet.toNat_le_lastCode c
    rw [Bool.eq_iff_iff, CharSet.holds_iff]
    simp [← Char.toNat_inj]
    omega
  have hescaped := (decided_char (c := '\\') fun _ => rfl).seq (decided_set hbreak)
    fun _ h => h.elim
  refine (decided_set h).alt hescaped fun t => ?_
  rcases t with - | ⟨c, t⟩
  · exact .inl rfl
  · by_cases hc : c = '\\'
    · simp [Text.one, hc]
    · exact .inr (Text.andThen_one_of_neg (by simpa using hc) _ t)

theorem ne_nil_of_item {quote : Char} {t l r : Text} (h : Text.quotedItem quote t = some (l, r)) :
    l ≠ [] := by
  obtain ⟨-, hi⟩ := Text.quotedItem_eq_some_iff.mp h
  cases hi with
  | plain => exact List.cons_ne_nil _ _
  | escaped => exact List.cons_ne_nil _ _

/-- The quote that ends a text is none of its characters. -/
theorem one_quote_of_item {quote : Char} (hq : quote ≠ '\\') {t : Text}
    (h : (Text.quotedItem quote t).isSome) : Text.one (· == quote) t = none := by
  obtain ⟨⟨l, r⟩, h⟩ := Option.isSome_iff_exists.mp h
  obtain ⟨rfl, hi⟩ := Text.quotedItem_eq_some_iff.mp h
  cases hi with
  | plain hc => simp [Text.one, hc]
  | escaped => simp [Text.one, hq.symm]

theorem prefers_string : (pattern .string).Decided Text.stringLexeme? := by
  rw [← Text.quoted_string]
  have hquote := decided_char (c := '"') fun _ => rfl
  have hitem := decided_item (CharSet.holds_others '"' rfl (by decide))
  have hitems := hitem.many fun _ _ _ => ne_nil_of_item
  exact hquote.seq (hitems.seq hquote fun _ => one_quote_of_item (by decide)) fun _ h => h.elim

theorem prefers_char : (pattern .char).Decided Text.charLexeme? := by
  rw [← Text.quoted_char]
  have hquote := decided_char (c := '\'') fun _ => rfl
  have hitem := decided_item (CharSet.holds_others '\'' rfl (by decide))
  exact hquote.seq (hitem.seq hquote fun _ h => h.elim) fun _ h => h.elim

/-- **What the pattern of a class prefers** is what its reader takes. -/
theorem exists_prefers (k : LexemeClass) : ∃ more, k.pattern.Prefers k.lexeme? more := by
  cases k with
  | identifier => exact ⟨_, prefers_identifier⟩
  | decimalInteger => exact ⟨_, prefers_integer⟩
  | binaryInteger =>
    refine ⟨_, prefers_based (CharSet.holds_pair 'B' 'b') fun c => ?_⟩
    rw [Bool.eq_iff_iff, CharSet.holds_iff]
    simp [← Char.toNat_inj]
    omega
  | octalInteger =>
    refine ⟨_, prefers_based (CharSet.holds_pair 'O' 'o') fun c => ?_⟩
    rw [Bool.eq_iff_iff, CharSet.holds_iff]
    simp [CharSet.char_le_iff]
  | hexInteger =>
    refine ⟨_, prefers_based (CharSet.holds_pair 'X' 'x') fun c => ?_⟩
    rw [Bool.eq_iff_iff, CharSet.holds_iff]
    simp [CharSet.char_le_iff, Text.isDigit_iff_toNat]
    omega
  | plainFloat => exact ⟨_, prefers_plainFloat⟩
  | exponentFloat => exact ⟨_, prefers_exponentFloat⟩
  | string => exact ⟨_, prefers_string⟩
  | char => exact ⟨_, prefers_char⟩

end LexemeClass

namespace Rule

variable {kind : TokenKind} {s : String} {t : Text} {k : LexemeClass}

/-- A spelling is the only match of its pattern. -/
theorem asWritten_ofSpelling
    (h : Pattern.ofText? ("^(?:".toList ++ t ++ [')']) =
      .ok (.seq (.look .textStart) (.literal s.toList))) :
    (ofSpelling kind s).AsWritten (kind, t) := by
  refine ⟨rfl, _, h, fun ahead => ?_⟩
  rw [(Pattern.decided_literal s.toList).leftmostFirst?_eq, Option.map_map]
  · rfl
  · intro t l r hread
    obtain ⟨r', hr, heq⟩ := Option.map_eq_some_iff.mp hread
    obtain ⟨rfl, rfl⟩ := Prod.mk.inj heq
    exact Text.eq_append_of_after? hr

theorem asWritten_ofClass (k : LexemeClass) :
    (ofClass k.kind k).AsWritten (k.kind, k.written.toList) := by
  obtain ⟨more, hprefers⟩ := k.exists_prefers
  refine ⟨rfl, _, k.ofText?_written, fun ahead => ?_⟩
  rw [hprefers.leftmostFirst?_eq fun _ _ _ h => (LexemeClass.member_of_lexeme? h).1]
  rfl

end Rule

/-- **The standard rules are those of the table**: each finds the leftmost
match of its pattern, the preferred one. -/
theorem Lexicon.standard_asWritten :
    List.Forall₂ Rule.AsWritten Lexicon.standard.rules Lexicon.written := by
  have hmap : ∀ {α : Type} (l : List α) (f : α → Rule) (g : α → TokenKind × Text),
      (∀ a, (f a).AsWritten (g a)) → List.Forall₂ Rule.AsWritten (l.map f) (l.map g) := by
    intro α l f g h
    rw [List.forall₂_map_left_iff, List.forall₂_map_right_iff, List.forall₂_same]
    exact fun a _ => h a
  refine List.rel_append (List.rel_append ?_ ?_) ?_
  · refine hmap _ _ _ fun k => Rule.asWritten_ofSpelling ?_
    cases k
    all_goals decide +kernel
  · exact hmap LexemeClass.all (fun k => Rule.ofClass k.kind k) _ Rule.asWritten_ofClass
  · refine hmap _ _ _ fun s => Rule.asWritten_ofSpelling ?_
    cases s
    all_goals decide +kernel

end StraightLine
