import StraightLine.Proofs.Text.Blank

/-!
# Literals and names — their spelling, and the readers that take them

The classes of lexemes an expression is made of are described here as sets of
texts: `IntegerLexeme` with the number written, `FloatLexeme`, and
`NameLexeme`. Each reader is then tied to its class in both directions. What
a reader takes belongs to the class, and in front of a text that `Breaks` a
lexeme it takes exactly the lexeme put there, so the longest match is the
only one.
-/

namespace StraightLine

namespace Text

variable {l r ds t : Text}

/-! ## Digits -/

/-- A text of decimal digits, possibly none. -/
def AllDigits (t : Text) : Prop := ∀ c ∈ t, c.isDigit = true

instance : Decidable (AllDigits t) := decidable_of_iff (t.all Char.isDigit = true) List.all_eq_true

/-- **One digit or more.** -/
structure Digits (t : Text) : Prop where
  nonempty : t ≠ []
  all : AllDigits t

theorem allDigits_takeWhile (t : Text) : AllDigits (t.takeWhile Char.isDigit) := fun _ h =>
  holds_of_mem_takeWhile h

theorem spanDigits_append (hds : AllDigits ds) (hr : StartsOutside Char.isDigit r) :
    spanDigits (ds ++ r) = (ds, r) := by
  rw [spanDigits, takeWhile_append hds hr, dropWhile_append hds hr]

theorem spanDigits_append_snd (t : Text) : (spanDigits t).1 ++ (spanDigits t).2 = t :=
  List.takeWhile_append_dropWhile

/-- Digits put no other character in front. -/
theorem AllDigits.head?_ne {c : Char} (hds : AllDigits ds) (hc : c.isDigit = false)
    (ht : t.head? ≠ some c) : (ds ++ t).head? ≠ some c := by
  cases ds with
  | nil => exact ht
  | cons d ds =>
    intro h
    simp only [List.cons_append, List.head?_cons, Option.some.injEq] at h
    have hd := hds d List.mem_cons_self
    rw [h, hc] at hd
    cases hd

theorem Digits.head?_ne {c : Char} (hds : Digits ds) (hc : c.isDigit = false) (t : Text) :
    (ds ++ t).head? ≠ some c := by
  have h := hds.all.head?_ne hc (t := []) (by simp)
  cases ds with
  | nil => exact absurd rfl hds.nonempty
  | cons d ds => simpa using h

theorem isBlank_eq_false_of_isDigit {c : Char} (h : c.isDigit = true) : isBlank c = false :=
  isBlank_eq_false_of_isNameChar (isNameChar_of_isDigit h)

/-! ## Signs -/

/-- An optional minus. -/
def IsMinus (t : Text) : Prop := t = [] ∨ t = ['-']

theorem spanMinus_append {minus : Text} (hm : IsMinus minus) (ht : t.head? ≠ some '-') :
    spanMinus (minus ++ t) = (minus, t) := by
  rcases hm with rfl | rfl
  · cases t with
    | nil => rfl
    | cons c t =>
      have hc : c ≠ '-' := by simpa using ht
      simp [spanMinus, hc]
  · rfl

theorem spanMinus_sound (t : Text) :
    IsMinus (spanMinus t).1 ∧ (spanMinus t).1 ++ (spanMinus t).2 = t := by
  unfold spanMinus
  split
  · exact ⟨.inr rfl, rfl⟩
  · exact ⟨.inl rfl, rfl⟩

/-- An optional plus or minus of an exponent. -/
def IsExponentSign (t : Text) : Prop := t = [] ∨ t = ['-'] ∨ t = ['+']

theorem spanExponentSign_append {sign : Text} (hs : IsExponentSign sign)
    (hm : t.head? ≠ some '-') (hp : t.head? ≠ some '+') :
    spanExponentSign (sign ++ t) = (sign, t) := by
  rcases hs with rfl | rfl | rfl
  · cases t with
    | nil => rfl
    | cons c t =>
      have h₁ : c ≠ '-' := by simpa using hm
      have h₂ : c ≠ '+' := by simpa using hp
      simp [spanExponentSign, h₁, h₂]
  · rfl
  · rfl

theorem spanExponentSign_sound (t : Text) :
    IsExponentSign (spanExponentSign t).1 ∧
      (spanExponentSign t).1 ++ (spanExponentSign t).2 = t := by
  unfold spanExponentSign
  split
  · exact ⟨.inr (.inl rfl), rfl⟩
  · exact ⟨.inr (.inr rfl), rfl⟩
  · exact ⟨.inl rfl, rfl⟩

/-- Reading a number skips the same signs. -/
theorem spanSign_append_snd {sign : Text} (hs : IsExponentSign sign)
    (hm : t.head? ≠ some '-') (hp : t.head? ≠ some '+') : (spanSign (sign ++ t)).2 = t := by
  rcases hs with rfl | rfl | rfl
  · cases t with
    | nil => rfl
    | cons c t =>
      have h₁ : c ≠ '-' := by simpa using hm
      have h₂ : c ≠ '+' := by simpa using hp
      simp [spanSign, h₁, h₂]
  · rfl
  · rfl

/-! ## Integers -/

/-- **Integers**: an optional minus and digits, with the number they write. -/
inductive IntegerLexeme : Text → Int → Prop
  | plain {ds : Text} (h : Digits ds) : IntegerLexeme ds (digitsValue ds)
  | minus {ds : Text} (h : Digits ds) : IntegerLexeme ('-' :: ds) (-(digitsValue ds : Int))

/-- A minus and digits are read up to the first character that is no digit. -/
theorem integerLexeme?_signed {minus : Text} (hm : IsMinus minus) (hds : Digits ds)
    (hr : StartsOutside Char.isDigit r) :
    integerLexeme? (minus ++ (ds ++ r)) = some (minus ++ ds, r) := by
  simp only [integerLexeme?, spanMinus_append hm (hds.head?_ne (by decide) r),
    spanDigits_append hds.all hr]
  rw [if_neg (by simpa using hds.nonempty)]

/-- An integer in front of what breaks it is read to its end. -/
theorem integerLexeme?_append {n : Int} (h : IntegerLexeme l n) (hr : Breaks r) :
    integerLexeme? (l ++ r) = some (l, r) := by
  cases h with
  | plain hds => exact integerLexeme?_signed (.inl rfl) hds hr.startsOutside_isDigit
  | minus hds => exact integerLexeme?_signed (.inr rfl) hds hr.startsOutside_isDigit

/-- What is read as an integer is one. -/
theorem integerLexeme_of_integerLexeme? (h : integerLexeme? t = some (l, r)) :
    t = l ++ r ∧ ∃ n, IntegerLexeme l n := by
  simp only [integerLexeme?] at h
  obtain ⟨hm, happ⟩ := spanMinus_sound t
  split at h
  · cases h
  · rename_i hne
    obtain ⟨rfl, rfl⟩ := Prod.mk.inj (Option.some.inj h)
    have hds : Digits (spanDigits (spanMinus t).2).1 :=
      ⟨by simpa using hne, allDigits_takeWhile _⟩
    refine ⟨by rw [List.append_assoc, spanDigits_append_snd, happ], ?_⟩
    rcases hm with hm | hm
    · rw [hm]
      exact ⟨_, .plain hds⟩
    · rw [hm]
      exact ⟨_, .minus hds⟩

/-- An integer lexeme is a sign and the digits of its number. -/
theorem spanSign_of_integerLexeme {n : Int} (h : IntegerLexeme l n) :
    ∃ negative ds, spanSign l = (negative, ds) ∧
      (ds.isEmpty || !ds.all Char.isDigit) = false ∧
        n = if negative then -(digitsValue ds : Int) else digitsValue ds := by
  have hdigits : ∀ {ds : Text}, Digits ds → (ds.isEmpty || !ds.all Char.isDigit) = false := by
    intro ds hds
    have hall : ds.all Char.isDigit = true := List.all_eq_true.mpr hds.all
    have hne : ds.isEmpty = false := by simpa using hds.nonempty
    rw [hall, hne]
    rfl
  cases h with
  | plain hds =>
    refine ⟨false, l, ?_, hdigits hds, rfl⟩
    obtain ⟨c, ds, rfl⟩ := List.exists_cons_of_ne_nil hds.nonempty
    have h₁ : c ≠ '-' := by simpa using hds.head?_ne (c := '-') (by decide) []
    have h₂ : c ≠ '+' := by simpa using hds.head?_ne (c := '+') (by decide) []
    simp [spanSign, h₁, h₂]
  | @minus ds hds => exact ⟨true, ds, rfl, hdigits hds, rfl⟩

/-- The number of an integer lexeme, when it has sixty-four bits. -/
theorem wordOf?_of_integerLexeme {n : Int} (h : IntegerLexeme l n) :
    wordOf? l = if isWord n then some n else none := by
  obtain ⟨negative, ds, hspan, hds, rfl⟩ := spanSign_of_integerLexeme h
  simp only [wordOf?, hspan, hds, Bool.false_eq_true, if_false]

/-- A text whose first character is no digit and no minus starts no
integer. -/
theorem integerLexeme?_cons_eq_none {c : Char} (hd : c.isDigit = false) (hm : c ≠ '-') (t : Text) :
    integerLexeme? (c :: t) = none := by
  have h := spanMinus_append (.inl rfl) (t := c :: t) (by simpa using hm)
  simp only [List.nil_append] at h
  simp [integerLexeme?, h, spanDigits, hd]

/-- An integer starts with a minus or a digit, no blank in any case. -/
theorem IntegerLexeme.exists_head {n : Int} (h : IntegerLexeme l n) :
    ∃ c t, l = c :: t ∧ isBlank c = false := by
  cases h with
  | plain hds =>
    obtain ⟨c, t, rfl⟩ := List.exists_cons_of_ne_nil hds.nonempty
    exact ⟨c, t, rfl, isBlank_eq_false_of_isDigit (hds.all c List.mem_cons_self)⟩
  | minus hds => exact ⟨'-', _, rfl, by decide⟩

/-! ## Floats -/

/-- An exponent, or nothing. -/
inductive Exponent : Text → Prop
  | none : Exponent []
  | some {e : Char} {sign ds : Text} (he : e = 'e' ∨ e = 'E') (hs : IsExponentSign sign)
      (hds : Digits ds) : Exponent (e :: (sign ++ ds))

/-- **Floats**: an optional minus, a point with a digit on at least one side,
and an optional exponent. -/
inductive FloatLexeme : Text → Prop
  | mk {minus whole part exponent : Text} (hm : IsMinus minus) (hw : AllDigits whole)
      (hp : AllDigits part) (hne : whole ≠ [] ∨ part ≠ []) (he : Exponent exponent) :
      FloatLexeme (minus ++ whole ++ '.' :: (part ++ exponent))

theorem spanExponent_append {exponent : Text} (he : Exponent exponent) (hr : Breaks r) :
    spanExponent (exponent ++ r) = (exponent, r) := by
  cases he with
  | none =>
    cases r with
    | nil => rfl
    | cons c r =>
      have hc := (hr c rfl).1
      have hne : ¬ (c = 'e' ∨ c = 'E') := by
        rintro (rfl | rfl)
        · exact absurd hc (by decide)
        · exact absurd hc (by decide)
      simp [spanExponent, hne]
  | @some e sign ds he hs hds =>
    have hnil : ds.isEmpty = false := by simpa using hds.nonempty
    rw [List.cons_append, spanExponent, if_pos he, List.append_assoc,
      spanExponentSign_append hs (hds.head?_ne (by decide) r) (hds.head?_ne (by decide) r)]
    simp only [spanDigits_append hds.all hr.startsOutside_isDigit, hnil]
    rfl

theorem spanExponent_sound (t : Text) :
    Exponent (spanExponent t).1 ∧ (spanExponent t).1 ++ (spanExponent t).2 = t := by
  cases t with
  | nil => exact ⟨.none, rfl⟩
  | cons c t =>
    rw [spanExponent]
    split
    · rename_i he
      obtain ⟨hs, happ⟩ := spanExponentSign_sound t
      simp only
      split
      · exact ⟨.none, rfl⟩
      · rename_i hne
        refine ⟨.some he hs ⟨by simpa using hne, allDigits_takeWhile _⟩, ?_⟩
        rw [List.cons_append, List.append_assoc, spanDigits_append_snd, happ]
    · exact ⟨.none, rfl⟩

/-- An exponent starts with no digit. -/
theorem Exponent.startsOutside_isDigit {exponent : Text} (he : Exponent exponent)
    (hr : StartsOutside Char.isDigit r) : StartsOutside Char.isDigit (exponent ++ r) := by
  cases he with
  | none => exact hr
  | some he hs hds =>
    intro c hc
    simp only [List.cons_append, List.head?_cons, Option.some.injEq] at hc
    subst hc
    rcases he with rfl | rfl
    · decide
    · decide

theorem startsOutside_isDigit_point (t : Text) : StartsOutside Char.isDigit ('.' :: t) :=
  startsOutside_cons (by decide)

/-- A float in front of what breaks it is read to its end. -/
theorem floatLexeme?_append (h : FloatLexeme l) (hr : Breaks r) :
    floatLexeme? (l ++ r) = some (l, r) := by
  obtain @⟨minus, whole, part, exponent, hm, hw, hp, hne, he⟩ := h
  have hhead : (whole ++ '.' :: (part ++ (exponent ++ r))).head? ≠ some '-' :=
    hw.head?_ne (by decide) (by simp)
  have hempty : (whole.isEmpty && part.isEmpty) = false := by
    rcases hne with h | h
    · simp [h]
    · simp [h]
  have happ : minus ++ whole ++ '.' :: (part ++ exponent) ++ r =
      minus ++ (whole ++ '.' :: (part ++ (exponent ++ r))) := by simp
  rw [happ]
  simp only [floatLexeme?, spanMinus_append hm hhead,
    spanDigits_append hw (startsOutside_isDigit_point _),
    spanDigits_append hp (he.startsOutside_isDigit hr.startsOutside_isDigit), hempty,
    spanExponent_append he hr, Bool.false_eq_true, if_false]

/-- What is read as a float is one. -/
theorem floatLexeme_of_floatLexeme? (h : floatLexeme? t = some (l, r)) :
    t = l ++ r ∧ FloatLexeme l := by
  obtain ⟨hm, hminus⟩ := spanMinus_sound t
  have hwhole := spanDigits_append_snd (spanMinus t).2
  simp only [floatLexeme?] at h
  split at h
  · rename_i u hu
    have hpart := spanDigits_append_snd u
    obtain ⟨he, hexp⟩ := spanExponent_sound (spanDigits u).2
    split at h
    · cases h
    · rename_i hempty
      obtain ⟨rfl, rfl⟩ := Prod.mk.inj (Option.some.inj h)
      refine ⟨?_, .mk hm (allDigits_takeWhile _) (allDigits_takeWhile _) ?_ he⟩
      · rw [List.append_assoc, List.append_assoc, List.cons_append, List.append_assoc, hexp,
          hpart, ← hu, hwhole, hminus]
      · by_contra hnone
        simp only [not_or, not_not] at hnone
        exact hempty (by rw [hnone.1, hnone.2]; rfl)
  · cases h

/-- An integer that a float does not go on from is no float. -/
theorem floatLexeme?_integer_append {n : Int} (h : IntegerLexeme l n) (hr : Breaks r) :
    floatLexeme? (l ++ r) = none := by
  -- behind the digits no point can stand, since it would not break the lexeme
  have key : ∀ {minus ds : Text}, IsMinus minus → Digits ds →
      floatLexeme? (minus ++ (ds ++ r)) = none := by
    intro minus ds hm hds
    simp only [floatLexeme?, spanMinus_append hm (hds.head?_ne (by decide) r),
      spanDigits_append hds.all hr.startsOutside_isDigit]
    split
    · exact absurd rfl (hr '.' rfl).2
    · rfl
  cases h with
  | plain hds => exact key (.inl rfl) hds
  | minus hds => exact key (.inr rfl) hds

/-- A text whose first character is no digit, minus or point starts no
float. -/
theorem floatLexeme?_cons_eq_none {c : Char} (hd : c.isDigit = false) (hm : c ≠ '-')
    (hp : c ≠ '.') (t : Text) : floatLexeme? (c :: t) = none := by
  have h := spanMinus_append (.inl rfl) (t := c :: t) (by simpa using hm)
  simp only [List.nil_append] at h
  simp [floatLexeme?, h, spanDigits, hd, hp]

/-- A float starts with a minus, a digit or a point, no blank in any case. -/
theorem FloatLexeme.exists_head (h : FloatLexeme l) : ∃ c t, l = c :: t ∧ isBlank c = false := by
  obtain @⟨minus, whole, part, exponent, hm, hw, -, -, -⟩ := h
  rcases hm with rfl | rfl
  · cases whole with
    | nil => exact ⟨'.', _, rfl, by decide⟩
    | cons c whole => exact ⟨c, _, rfl, isBlank_eq_false_of_isDigit (hw c List.mem_cons_self)⟩
  · exact ⟨'-', _, rfl, by decide⟩

/-- The double a float lexeme writes. -/
def floatValue (l : Text) : Double := (Double.ofText? l).getD .zero

/-- An exponent has a value. -/
theorem exponentOf?_isSome {exponent : Text} (he : Exponent exponent) :
    (Decimal.exponentOf? exponent).isSome := by
  cases he with
  | none => rfl
  | @some e sign ds he hs hds =>
    have hsign : (spanSign (sign ++ ds)).2 = ds := by
      have h₁ := hds.head?_ne (c := '-') (by decide) []
      have h₂ := hds.head?_ne (c := '+') (by decide) []
      rw [List.append_nil] at h₁ h₂
      exact spanSign_append_snd hs h₁ h₂
    have hall : ds.all Char.isDigit = true := List.all_eq_true.mpr hds.all
    have hne : ds.isEmpty = false := by simpa using hds.nonempty
    rw [Decimal.exponentOf?, if_pos he]
    simp only [hsign, hne, hall, Bool.not_true, Bool.or_self, Bool.false_eq_true, if_false]
    split <;> rfl

/-- **Every float lexeme has a value.** -/
theorem ofText?_of_floatLexeme (h : FloatLexeme l) : Double.ofText? l = some (floatValue l) := by
  -- the words for infinity are tried only where no number is written
  suffices hdec : (Decimal.ofText? l).isSome by
    obtain ⟨d, hd⟩ := Option.isSome_iff_exists.mp hdec
    simp [floatValue, Double.ofText?, hd]
  obtain @⟨minus, whole, part, exponent, hm, hw, hp, hne, he⟩ := h
  have hempty : (whole.isEmpty && part.isEmpty) = false := by
    rcases hne with h | h
    · simp [h]
    · simp [h]
  have hout : StartsOutside Char.isDigit exponent := by
    simpa using he.startsOutside_isDigit (r := []) (by simp [StartsOutside])
  have hsign : (spanSign (minus ++ (whole ++ '.' :: (part ++ exponent)))).2 =
      whole ++ '.' :: (part ++ exponent) :=
    spanSign_append_snd (hm.imp_right .inl) (hw.head?_ne (by decide) (by simp))
      (hw.head?_ne (by decide) (by simp))
  have hmant : Decimal.mantissaOf? (whole ++ '.' :: (part ++ exponent)) =
      some (digitsValue (whole ++ part), part.length, exponent) := by
    simp only [Decimal.mantissaOf?, spanDigits_append hw (startsOutside_isDigit_point _),
      spanDigits_append hp hout, hempty, Bool.false_eq_true, if_false]
  rw [List.append_assoc]
  simp only [Decimal.ofText?, hsign, hmant, Option.isSome_map, exponentOf?_isSome he]

/-! ## Names -/

/-- **Names**: a letter or an underscore, then letters, digits and
underscores. -/
inductive NameLexeme : Text → Prop
  | mk {c : Char} {cs : Text} (hc : isNameStart c = true) (hcs : ∀ d ∈ cs, isNameChar d = true) :
      NameLexeme (c :: cs)

/-- A name is read up to the first character that none goes on with. -/
theorem nameLexeme?_outside (h : NameLexeme l) (hr : StartsOutside isNameChar r) :
    nameLexeme? (l ++ r) = some (l, r) := by
  obtain ⟨hc, hcs⟩ := h
  rw [List.cons_append, nameLexeme?, if_pos hc, takeWhile_append hcs hr, dropWhile_append hcs hr]

/-- A name in front of what breaks it is read to its end. -/
theorem nameLexeme?_append (h : NameLexeme l) (hr : Breaks r) :
    nameLexeme? (l ++ r) = some (l, r) := nameLexeme?_outside h fun c hc => (hr c hc).1

/-- What is read as a name is one. -/
theorem nameLexeme_of_nameLexeme? (h : nameLexeme? t = some (l, r)) :
    t = l ++ r ∧ NameLexeme l := by
  cases t with
  | nil => cases h
  | cons c t =>
    rw [nameLexeme?] at h
    split at h
    · rename_i hc
      obtain ⟨rfl, rfl⟩ := Prod.mk.inj (Option.some.inj h)
      refine ⟨?_, .mk hc fun d hd => holds_of_mem_takeWhile hd⟩
      rw [List.cons_append, List.takeWhile_append_dropWhile]
    · cases h

theorem isNameChar_of_isNameStart {c : Char} (h : isNameStart c = true) :
    isNameChar c = true := by
  simp only [isNameStart, Bool.or_eq_true] at h
  simp only [isNameChar, Char.isAlphanum, Bool.or_eq_true]
  exact h.imp_left .inl

/-- A name starts with no blank. -/
theorem NameLexeme.exists_head (h : NameLexeme l) :
    ∃ c t, l = c :: t ∧ isNameStart c = true ∧ isBlank c = false := by
  obtain ⟨hc, -⟩ := h
  exact ⟨_, _, rfl, hc, isBlank_eq_false_of_isNameChar (isNameChar_of_isNameStart hc)⟩

/-- The first character of a name is no digit, and none of the signs a number
can start with. -/
theorem isNameStart_ne {c : Char} (h : isNameStart c = true) :
    c.isDigit = false ∧ c ≠ '-' ∧ c ≠ '.' := by
  refine ⟨?_, ?_, ?_⟩
  · by_contra hd
    rw [Bool.not_eq_false, isDigit_iff_toNat] at hd
    rw [isNameStart, Bool.or_eq_true, isAlpha_iff_toNat, beq_iff_eq] at h
    rcases h with h | rfl
    · omega
    · exact absurd hd (by decide)
  · rintro rfl
    exact absurd h (by decide)
  · rintro rfl
    exact absurd h (by decide)

end Text

end StraightLine
