import StraightLine.Proofs.Lexeme.Shape
import StraightLine.Token.Kind

/-!
# Munches — how far the readers of the classes go

Where a literal of the grammar stands, each class of lexemes takes as much of
it as it can. A class of numbers takes something only in front of a digit, with
or without a minus (`lexeme?_cases`), and the minus makes no difference to what
is taken behind it (`lexeme?_minus`). Digits are an integer of the decimal
class and of no other, and they belong to a float when there are digits on
both sides of a point.
-/

namespace StraightLine

namespace Text

variable {holds : Char → Bool} {run t r ds whole part : Text}

/-! ## Runs of digits -/

theorem spanSome?_append (hne : run ≠ []) (hrun : ∀ c ∈ run, holds c = true)
    (ht : StartsOutside holds t) : spanSome? holds (run ++ t) = some (run, t) := by
  rw [spanSome?, takeWhile_append hrun ht, dropWhile_append hrun ht, if_neg (by simpa using hne)]

theorem spanSome?_eq_none (ht : StartsOutside holds t) : spanSome? holds t = none := by
  have h := takeWhile_append (show ∀ c ∈ ([] : Text), holds c = true by simp) ht
  rw [List.nil_append] at h
  rw [spanSome?, h]
  rfl

/-- A text that starts with a digit, or with a minus in front of one. -/
def StartsNumber (t : Text) : Prop := ∃ c, (spanMinus t).2.head? = some c ∧ c.isDigit = true

theorem startsNumber_of_integerLexeme? {l : Text} (h : integerLexeme? t = some (l, r)) :
    StartsNumber t := by
  simp only [integerLexeme?] at h
  split at h
  · cases h
  · rename_i hne
    rcases hu : (spanMinus t).2 with - | ⟨c, u⟩
    · simp [hu, spanDigits] at hne
    · by_cases hc : c.isDigit = true
      · exact ⟨c, by rw [hu, List.head?_cons], hc⟩
      · simp [hu, spanDigits, hc] at hne

/-- **A text starts no number** when it goes on with no digit behind a minus. -/
theorem not_startsNumber {c : Char} (hs : (spanMinus run).2.head? = some c)
    (hc : c.isDigit = false) (t : Text) : ¬ StartsNumber (run ++ t) := by
  have hspan : (spanMinus (run ++ t)).2 = (spanMinus run).2 ++ t := by
    cases run with
    | nil => cases hs
    | cons e run =>
      by_cases he : e = '-'
      · rw [he]
        rfl
      · have hhead : ∀ u : Text, (e :: u).head? ≠ some '-' := fun _ h => he (Option.some.inj h)
        have hplain : ∀ u : Text, spanMinus (e :: u) = ([], e :: u) := fun u =>
          spanMinus_append (.inl rfl) (hhead u)
        rw [List.cons_append, hplain, hplain, List.cons_append]
  rintro ⟨d, hd, hdd⟩
  rw [hspan, List.head?_append, hs] at hd
  obtain rfl : c = d := Option.some.inj hd
  exact Bool.false_ne_true (hc.symm.trans hdd)

/-- A name starts no number. -/
theorem not_startsNumber_of_isNameStart {c : Char} (hc : isNameStart c = true) (t : Text) :
    ¬ StartsNumber (c :: t) := by
  obtain ⟨hdigit, hminus, -⟩ := isNameStart_ne hc
  have hm : spanMinus [c] = ([], [c]) :=
    spanMinus_append (.inl rfl) fun h => hminus (Option.some.inj h)
  have hs : (spanMinus [c]).2.head? = some c := by rw [hm, List.head?_cons]
  exact not_startsNumber hs hdigit t

theorem spanMinus_of_digit {c : Char} (hc : c.isDigit = true) (t : Text) :
    spanMinus (c :: t) = ([], c :: t) := by
  refine spanMinus_append (.inl rfl) ?_
  rintro h
  obtain rfl := Option.some.inj h
  exact absurd hc (by decide)

/-! ## A minus in front -/

variable {c : Char}

theorem integerLexeme?_minus (hc : c.isDigit = true) (t : Text) :
    integerLexeme? ('-' :: c :: t) = behind ['-'] (integerLexeme? (c :: t)) := by
  have hm : spanMinus ('-' :: c :: t) = (['-'], c :: t) := rfl
  simp only [integerLexeme?, hm, spanMinus_of_digit hc]
  split
  · rfl
  · rfl

theorem basedLexeme?_minus {lower upper : Char} (hc : c.isDigit = true) (t : Text) :
    basedLexeme? lower upper holds ('-' :: c :: t) =
      behind ['-'] (basedLexeme? lower upper holds (c :: t)) := by
  have hm : spanMinus ('-' :: c :: t) = (['-'], c :: t) := rfl
  simp only [basedLexeme?, hm, spanMinus_of_digit hc]
  split
  · split
    · simp only [behind, Option.map_map]
      rfl
    · rfl
  · rfl

theorem plainFloatLexeme?_minus (hc : c.isDigit = true) (t : Text) :
    plainFloatLexeme? ('-' :: c :: t) = behind ['-'] (plainFloatLexeme? (c :: t)) := by
  simp only [plainFloatLexeme?, integerLexeme?_minus hc]
  rcases integerLexeme? (c :: t) with - | ⟨l, - | ⟨d, u⟩⟩
  · rfl
  · rfl
  · by_cases hd : d = '.'
    · subst hd
      simp only [behind, Option.map_some, Option.map_map]
      rfl
    · simp [behind, hd]

theorem exponentFloatLexeme?_minus (hc : c.isDigit = true) (t : Text) :
    exponentFloatLexeme? ('-' :: c :: t) = behind ['-'] (exponentFloatLexeme? (c :: t)) := by
  simp only [exponentFloatLexeme?, plainFloatLexeme?_minus hc]
  rcases plainFloatLexeme? (c :: t) with - | ⟨l, - | ⟨d, u⟩⟩
  · rfl
  · rfl
  · simp only [behind, Option.map_some]
    split
    · simp only [Option.map_map]
      rfl
    · rfl

/-! ## Digits and what follows them -/

/-- Digits in front of no point with a digit are no float. -/
theorem plainFloatLexeme?_eq_none (hds : Digits ds) (hr : StartsOutside Char.isDigit r)
    (hpoint : ∀ u, r = '.' :: u → StartsOutside Char.isDigit u) :
    plainFloatLexeme? (ds ++ r) = none := by
  have hint := integerLexeme?_signed (.inl rfl) hds hr
  rw [List.nil_append] at hint
  simp only [plainFloatLexeme?, hint]
  split
  · rename_i u heq
    obtain ⟨-, rfl⟩ := Prod.mk.inj (Option.some.inj heq)
    rw [spanSome?_eq_none (hpoint _ rfl)]
    rfl
  · rfl

/-- Digits on both sides of a point are a float. -/
theorem plainFloatLexeme?_append (hw : Digits whole) (hp : Digits part)
    (hr : StartsOutside Char.isDigit r) :
    plainFloatLexeme? (whole ++ '.' :: (part ++ r)) = some (whole ++ '.' :: part, r) := by
  have hint := integerLexeme?_signed (.inl rfl) hw (startsOutside_isDigit_point (part ++ r))
  rw [List.nil_append] at hint
  simp only [plainFloatLexeme?, hint, spanSome?_append hp.nonempty hp.all hr, behind,
    Option.map_some]
  simp

theorem exponentFloatLexeme?_eq_none_of_plain (h : plainFloatLexeme? t = none) :
    exponentFloatLexeme? t = none := by
  rw [exponentFloatLexeme?, h]

/-- No exponent is found where no letter of one stands. -/
theorem exponentFloatLexeme?_eq_none {l : Text} (h : plainFloatLexeme? t = some (l, r))
    (hr : ∀ c, r.head? = some c → ¬ (c = 'e' ∨ c = 'E')) : exponentFloatLexeme? t = none := by
  rw [exponentFloatLexeme?, h]
  cases r with
  | nil => rfl
  | cons c r => exact if_neg (hr c rfl)

/-- A float with an exponent behind it is one lexeme. -/
theorem exponentFloatLexeme?_append {letter : Char} {sign : Text} (hw : Digits whole)
    (hp : Digits part) (hletter : letter = 'e' ∨ letter = 'E') (hs : IsExponentSign sign)
    (hds : Digits ds) (hr : StartsOutside Char.isDigit r) :
    exponentFloatLexeme? (whole ++ '.' :: (part ++ letter :: (sign ++ (ds ++ r)))) =
      some (whole ++ '.' :: (part ++ letter :: (sign ++ ds)), r) := by
  have hout : StartsOutside Char.isDigit (letter :: (sign ++ (ds ++ r))) := by
    simpa using (Exponent.some hletter hs hds).startsOutside_isDigit hr
  have hsign := spanExponentSign_append hs (hds.head?_ne (c := '-') (by decide) r)
    (hds.head?_ne (by decide) r)
  simp only [exponentFloatLexeme?, plainFloatLexeme?_append hw hp hout, if_pos hletter, hsign,
    spanSome?_append hds.nonempty hds.all hr, behind, Option.map_some]
  simp

/-- The characters that make an integer longer, or one of another base. -/
def extendsDigits (c : Char) : Bool := c.isDigit || ['b', 'B', 'o', 'O', 'x', 'X'].contains c

theorem StartsOutside.isDigit_of_extendsDigits (h : StartsOutside extendsDigits r) :
    StartsOutside Char.isDigit r := fun c hc => (Bool.or_eq_false_iff.mp (h c hc)).1

/-- What breaks a lexeme does neither. -/
theorem Breaks.startsOutside_extendsDigits (h : Breaks r) : StartsOutside extendsDigits r := by
  intro c hc
  have hname := (h c hc).1
  rw [extendsDigits, isDigit_eq_false_of_isNameChar hname, Bool.false_or]
  by_contra hmem
  simp only [Bool.not_eq_false, List.contains_iff_mem, List.mem_cons, List.not_mem_nil,
    or_false] at hmem
  rcases hmem with rfl | rfl | rfl | rfl | rfl | rfl
  all_goals exact absurd hname (by decide)

/-- Digits are no integer of another base where its letter does not follow. -/
theorem basedLexeme?_eq_none {lower upper : Char} (hlower : lower.isDigit = false)
    (hupper : upper.isDigit = false) (hds : Digits ds)
    (hr : ∀ c, r.head? = some c → ¬ (c = lower ∨ c = upper)) :
    basedLexeme? lower upper holds (ds ++ r) = none := by
  obtain ⟨c, ds, rfl⟩ := List.exists_cons_of_ne_nil hds.nonempty
  obtain ⟨hc, htail⟩ := List.forall_mem_cons.mp hds.all
  rw [List.cons_append]
  simp only [basedLexeme?, spanMinus_of_digit hc]
  split
  · rename_i letter u heq
    obtain ⟨-, heq⟩ := List.cons.inj heq
    rw [if_neg]
    cases ds with
    | nil => exact hr letter (by rw [← List.nil_append r, heq, List.head?_cons])
    | cons d ds =>
      -- the letter would be the second digit
      obtain ⟨rfl, -⟩ := List.cons.inj heq
      have hd : d.isDigit = true := htail d List.mem_cons_self
      rintro (rfl | rfl)
      · exact Bool.false_ne_true (hlower.symm.trans hd)
      · exact Bool.false_ne_true (hupper.symm.trans hd)
  · rfl

end Text

namespace Text

/-- **A float of the lexer**: digits on both sides of the point, without a
minus. -/
inductive FullFloat : Text → Prop
  | mk {whole part exponent : Text} (hw : Digits whole) (hp : Digits part)
      (he : Exponent exponent) : FullFloat (whole ++ '.' :: (part ++ exponent))

/-- The class of floats with exponents takes the whole of one, or nothing where
there is no exponent. -/
theorem exponentFloatLexeme?_full (hw : Digits whole) (hp : Digits part) {exponent : Text}
    (he : Exponent exponent) (hr : Breaks r) :
    exponentFloatLexeme? (whole ++ '.' :: (part ++ (exponent ++ r))) =
      if exponent = [] then none else some (whole ++ '.' :: (part ++ exponent), r) := by
  cases he with
  | none =>
    have hplain := plainFloatLexeme?_append hw hp hr.startsOutside_isDigit
    refine exponentFloatLexeme?_eq_none hplain fun c hc hletter => ?_
    have hname := (hr c hc).1
    rcases hletter with rfl | rfl
    · exact absurd hname (by decide)
    · exact absurd hname (by decide)
  | some hletter hs hds =>
    have h := exponentFloatLexeme?_append hw hp hletter hs hds hr.startsOutside_isDigit
    simpa using h

end Text

namespace LexemeClass

/-! ## The classes -/

variable {k : LexemeClass} {t w r : Text}

/-- The kind of the tokens that a class makes. -/
def kind : LexemeClass → TokenKind
  | identifier => .identifier
  | decimalInteger => .integer
  | binaryInteger => .integer
  | octalInteger => .integer
  | hexInteger => .integer
  | plainFloat => .float
  | exponentFloat => .float
  | string => .string
  | char => .char

/-- The classes of numbers. -/
def IsNumber (k : LexemeClass) : Prop := k.kind = .integer ∨ k.kind = .float

/-- **What a class takes, and where**: a name, a number where one starts, or
something in quotes. -/
theorem lexeme?_cases (h : k.lexeme? t = some (w, r)) :
    (k = .identifier ∧ Text.NameLexeme w) ∨ (k.IsNumber ∧ t.StartsNumber) ∨
      w.head? = some '"' ∨ w.head? = some '\'' := by
  have hbased : ∀ {lower upper : Char} {holds : Char → Bool},
      Text.basedLexeme? lower upper holds t = some (w, r) → t.StartsNumber := by
    intro lower upper holds h
    simp only [Text.basedLexeme?] at h
    split at h
    · rename_i letter u hu
      exact ⟨'0', by rw [hu, List.head?_cons], by decide⟩
    · cases h
  have hplain : ∀ {w r : Text}, Text.plainFloatLexeme? t = some (w, r) → t.StartsNumber := by
    intro w r h
    simp only [Text.plainFloatLexeme?] at h
    split at h
    · rename_i hint
      exact Text.startsNumber_of_integerLexeme? hint
    · cases h
  cases k with
  | identifier => exact .inl ⟨rfl, (Text.nameLexeme_of_nameLexeme? h).2⟩
  | decimalInteger => exact .inr (.inl ⟨.inl rfl, Text.startsNumber_of_integerLexeme? h⟩)
  | binaryInteger => exact .inr (.inl ⟨.inl rfl, hbased h⟩)
  | octalInteger => exact .inr (.inl ⟨.inl rfl, hbased h⟩)
  | hexInteger => exact .inr (.inl ⟨.inl rfl, hbased h⟩)
  | plainFloat => exact .inr (.inl ⟨.inr rfl, hplain h⟩)
  | exponentFloat =>
    refine .inr (.inl ⟨.inr rfl, ?_⟩)
    simp only [lexeme?, Text.exponentFloatLexeme?] at h
    split at h
    · rename_i hmantissa
      exact hplain hmantissa
    · cases h
  | string =>
    obtain ⟨-⟩ := (member_of_lexeme? h).2
    exact .inr (.inr (.inl rfl))
  | char =>
    obtain ⟨-⟩ := (member_of_lexeme? h).2
    exact .inr (.inr (.inr rfl))

/-- **A minus in front of a digit** goes with the number. -/
theorem lexeme?_minus {c : Char} (hk : k.IsNumber) (hc : c.isDigit = true) (t : Text) :
    k.lexeme? ('-' :: c :: t) = Text.behind ['-'] (k.lexeme? (c :: t)) := by
  cases k with
  | identifier => rcases hk with h | h <;> cases h
  | decimalInteger => exact Text.integerLexeme?_minus hc t
  | binaryInteger => exact Text.basedLexeme?_minus hc t
  | octalInteger => exact Text.basedLexeme?_minus hc t
  | hexInteger => exact Text.basedLexeme?_minus hc t
  | plainFloat => exact Text.plainFloatLexeme?_minus hc t
  | exponentFloat => exact Text.exponentFloatLexeme?_minus hc t
  | string => rcases hk with h | h <;> cases h
  | char => rcases hk with h | h <;> cases h

/-- **Digits** are the whole of what a class of numbers takes where neither
another digit nor the letter of a base follows, nor the digits of a float. -/
theorem eq_digits_of_lexeme? {ds : Text} (hk : k.IsNumber) (hds : Text.Digits ds)
    (hr : Text.StartsOutside Text.extendsDigits r)
    (hpoint : ∀ u, r = '.' :: u → Text.StartsOutside Char.isDigit u) {rest : Text}
    (h : k.lexeme? (ds ++ r) = some (w, rest)) : w = ds := by
  have hdigit := hr.isDigit_of_extendsDigits
  have hplain := Text.plainFloatLexeme?_eq_none hds hdigit hpoint
  have hbased : ∀ (lower upper : Char) (holds : Char → Bool), lower.isDigit = false →
      upper.isDigit = false → Text.extendsDigits lower = true → Text.extendsDigits upper = true →
      Text.basedLexeme? lower upper holds (ds ++ r) = none := by
    intro lower upper holds hl hu hlower hupper
    refine Text.basedLexeme?_eq_none hl hu hds ?_
    rintro c hc (rfl | rfl)
    · exact Bool.false_ne_true ((hr _ hc).symm.trans hlower)
    · exact Bool.false_ne_true ((hr _ hc).symm.trans hupper)
  cases k with
  | identifier => rcases hk with h | h <;> cases h
  | decimalInteger =>
    have hint := Text.integerLexeme?_signed (.inl rfl) hds hdigit
    obtain ⟨rfl, -⟩ := Prod.mk.inj (Option.some.inj (hint.symm.trans h))
    rfl
  | binaryInteger =>
    cases (hbased 'b' 'B' _ (by decide) (by decide) (by decide) (by decide)).symm.trans h
  | octalInteger =>
    cases (hbased 'o' 'O' _ (by decide) (by decide) (by decide) (by decide)).symm.trans h
  | hexInteger =>
    cases (hbased 'x' 'X' _ (by decide) (by decide) (by decide) (by decide)).symm.trans h
  | plainFloat => cases hplain.symm.trans h
  | exponentFloat => cases (Text.exponentFloatLexeme?_eq_none_of_plain hplain).symm.trans h
  | string => rcases hk with h | h <;> cases h
  | char => rcases hk with h | h <;> cases h

/-- **A float with digits on both sides** is taken whole by some class, and no
class of numbers takes more of it. -/
theorem float_munch (hv : Text.FullFloat t) (hr : r.Breaks) :
    (∃ k : LexemeClass, k.IsNumber ∧ k.lexeme? (t ++ r) = some (t, r)) ∧
      ∀ k : LexemeClass, k.IsNumber → ∀ w rest, k.lexeme? (t ++ r) = some (w, rest) →
        w.length < t.length ∨ w = t := by
  obtain @⟨whole, part, exponent, hw, hp, he⟩ := hv
  have happ : whole ++ '.' :: (part ++ exponent) ++ r =
      whole ++ '.' :: (part ++ (exponent ++ r)) := by simp
  have hout := he.startsOutside_isDigit hr.startsOutside_isDigit
  have hint := Text.integerLexeme?_signed (.inl rfl) hw
    (Text.startsOutside_isDigit_point (part ++ (exponent ++ r)))
  have hplain := Text.plainFloatLexeme?_append hw hp hout
  have hexp := Text.exponentFloatLexeme?_full hw hp he hr
  have hbased : ∀ {lower upper : Char} (holds : Char → Bool), lower.isDigit = false →
      upper.isDigit = false → lower ≠ '.' → upper ≠ '.' →
      Text.basedLexeme? lower upper holds (whole ++ '.' :: (part ++ (exponent ++ r))) = none := by
    intro lower upper holds hl hu hldot hudot
    refine Text.basedLexeme?_eq_none hl hu hw fun c hc hletter => ?_
    obtain rfl : '.' = c := Option.some.inj hc
    rcases hletter with h | h
    · exact hldot h.symm
    · exact hudot h.symm
  rw [happ]
  constructor
  · by_cases hnil : exponent = []
    · subst hnil
      exact ⟨.plainFloat, .inr rfl, by simpa [lexeme?] using hplain⟩
    · exact ⟨.exponentFloat, .inr rfl, by rw [lexeme?, hexp, if_neg hnil]⟩
  · intro k hk w rest h
    cases k with
    | identifier => rcases hk with h | h <;> cases h
    | decimalInteger =>
      obtain ⟨rfl, -⟩ := Prod.mk.inj (Option.some.inj (hint.symm.trans h))
      exact .inl (by simp)
    | binaryInteger =>
      cases (hbased _ (by decide) (by decide) (by decide) (by decide)).symm.trans h
    | octalInteger =>
      cases (hbased _ (by decide) (by decide) (by decide) (by decide)).symm.trans h
    | hexInteger =>
      cases (hbased _ (by decide) (by decide) (by decide) (by decide)).symm.trans h
    | plainFloat =>
      obtain ⟨rfl, -⟩ := Prod.mk.inj (Option.some.inj (hplain.symm.trans h))
      rcases exponent with - | ⟨c, exponent⟩
      · exact .inr (by rw [List.append_nil])
      · exact .inl (by simp)
    | exponentFloat =>
      have h := hexp.symm.trans h
      split at h
      · cases h
      · obtain ⟨rfl, -⟩ := Prod.mk.inj (Option.some.inj h)
        exact .inr rfl
    | string => rcases hk with h | h <;> cases h
    | char => rcases hk with h | h <;> cases h

end LexemeClass

end StraightLine
