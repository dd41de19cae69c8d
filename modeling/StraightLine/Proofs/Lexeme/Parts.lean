import StraightLine.Proofs.Lexeme.Maximal

/-!
# Parts of lexemes — readers put together

The readers of the classes are written out one by one. Each of them is also
put together from readers of single characters, one behind the other, with
parts that may be left out and parts that come again and again; this is how a
pattern describes it.
-/

namespace StraightLine

namespace Text

variable {f g h : Text → Option (Text × Text)} {holds : Char → Bool} {quote : Char} {t l r : Text}

/-- One reader behind another. -/
def andThen (f g : Text → Option (Text × Text)) (t : Text) : Option (Text × Text) :=
  (f t).bind fun x => behind x.1 (g x.2)

/-- One character that passes a test. -/
def one (holds : Char → Bool) : Text → Option (Text × Text)
  | c :: t => if holds c then some ([c], t) else none
  | [] => none

/-- What a reader takes, or else nothing. -/
def optional (f : Text → Option (Text × Text)) (t : Text) : Option (Text × Text) :=
  some ((f t).getD ([], t))

/-- A reader again and again, at most so many times. -/
def rounds (f : Text → Option (Text × Text)) : Nat → Text → Text × Text
  | 0, t => ([], t)
  | n + 1, t =>
    match f t with
    | some (l, r) => (l ++ (rounds f n r).1, (rounds f n r).2)
    | none => ([], t)

/-- A reader as often as it takes something. -/
def many (f : Text → Option (Text × Text)) (t : Text) : Option (Text × Text) :=
  some (rounds f (t.length + 1) t)

/-- One character of a quoted text, or one behind a backslash. -/
def quotedItem (quote : Char) (t : Text) : Option (Text × Text) :=
  (one (fun c => c != quote && c != '\\') t).or
    (andThen (one (· == '\\')) (one (· != '\n')) t)

/-! ## Numbers and names -/

theorem andThen_one_of_pos {c : Char} (hc : holds c = true) (g : Text → Option (Text × Text))
    (t : Text) : andThen (one holds) g (c :: t) = behind [c] (g t) := by
  simp [andThen, one, hc]

theorem andThen_one_of_neg {c : Char} (hc : holds c = false) (g : Text → Option (Text × Text))
    (t : Text) : andThen (one holds) g (c :: t) = none := by
  simp [andThen, one, hc]

theorem andThen_assoc : andThen (andThen f g) h = andThen f (andThen g h) := by
  funext t
  simp only [andThen]
  rcases f t with - | ⟨l, r⟩
  · rfl
  · rcases hg : g r with - | ⟨l', r'⟩
    · simp [behind, hg]
    · simp [behind, hg, Function.comp_def]

theorem rounds_one (n : Nat) (hn : t.length ≤ n) :
    rounds (one holds) n t = (t.takeWhile holds, t.dropWhile holds) := by
  induction n generalizing t with
  | zero => rw [List.length_eq_zero_iff.mp (Nat.le_zero.mp hn)]; rfl
  | succ n ih =>
    rcases t with - | ⟨c, t⟩
    · rfl
    · by_cases hc : holds c = true
      · simp [rounds, one, hc, ih (Nat.le_of_succ_le_succ hn)]
      · simp [rounds, one, hc]

theorem many_one : many (one holds) = fun t => some (t.takeWhile holds, t.dropWhile holds) := by
  funext t
  rw [many, rounds_one _ (Nat.le_succ _)]

theorem one_many : andThen (one holds) (many (one holds)) = spanSome? holds := by
  funext t
  rw [many_one]
  rcases t with - | ⟨c, t⟩
  · rfl
  · by_cases hc : holds c = true
    · simp [andThen, one, hc, behind, spanSome?]
    · simp [andThen, one, hc, spanSome?]

theorem one_many_nameLexeme? :
    andThen (one isNameStart) (many (one isNameChar)) = nameLexeme? := by
  funext t
  rw [many_one]
  rcases t with - | ⟨c, t⟩
  · rfl
  · by_cases hc : isNameStart c = true
    · simp [andThen, one, hc, behind, nameLexeme?]
    · simp [andThen, one, hc, nameLexeme?]

theorem optional_minus : optional (one (· == '-')) = fun t => some (spanMinus t) := by
  funext t
  rcases t with - | ⟨c, t⟩
  · rfl
  · by_cases hc : c = '-'
    · simp [optional, one, spanMinus, hc]
    · simp [optional, one, spanMinus, hc]

theorem optional_exponentSign :
    optional (one fun c => c == '-' || c == '+') = fun t => some (spanExponentSign t) := by
  funext t
  rcases t with - | ⟨c, t⟩
  · rfl
  · by_cases hm : c = '-'
    · simp [optional, one, spanExponentSign, hm]
    · by_cases hp : c = '+'
      · simp [optional, one, spanExponentSign, hp]
      · simp [optional, one, spanExponentSign, hm, hp]

theorem minus_digits :
    andThen (fun t => some (spanMinus t)) (spanSome? Char.isDigit) = integerLexeme? := by
  funext t
  simp only [andThen, Option.bind_some, integerLexeme?, spanSome?, spanDigits]
  by_cases h : ((spanMinus t).2.takeWhile Char.isDigit).isEmpty = true
  · simp [h, behind]
  · simp [h, behind]

theorem minus_based {lower upper : Char} {isDigit : Char → Bool} :
    andThen (fun t => some (spanMinus t)) (andThen (one (· == '0'))
      (andThen (one fun c => c == lower || c == upper) (spanSome? isDigit))) =
      basedLexeme? lower upper isDigit := by
  funext t
  simp only [andThen, Option.bind_some, basedLexeme?]
  rcases (spanMinus t).2 with - | ⟨c, - | ⟨letter, u⟩⟩
  · rfl
  · by_cases hc : c = '0'
    · simp [one, hc, behind]
    · simp [one, hc, behind]
  · by_cases hc : c = '0'
    · subst hc
      by_cases hl : letter = lower ∨ letter = upper
      · simp [one, hl, behind, Function.comp_def]
      · simp [one, hl, behind]
    · simp [one, hc, behind]

theorem integer_part :
    andThen integerLexeme? (andThen (one (· == '.')) (spanSome? Char.isDigit)) =
      plainFloatLexeme? := by
  funext t
  simp only [andThen, plainFloatLexeme?]
  rcases integerLexeme? t with - | ⟨l, - | ⟨c, u⟩⟩
  · rfl
  · rfl
  · by_cases hc : c = '.'
    · subst hc
      simp [one, behind, Function.comp_def]
    · simp [one, hc, behind]

theorem float_exponent :
    andThen plainFloatLexeme? (andThen (one fun c => c == 'e' || c == 'E')
      (andThen (fun t => some (spanExponentSign t)) (spanSome? Char.isDigit))) =
      exponentFloatLexeme? := by
  funext t
  simp only [andThen, exponentFloatLexeme?]
  rcases plainFloatLexeme? t with - | ⟨l, - | ⟨c, u⟩⟩
  · rfl
  · rfl
  · by_cases hc : c = 'e' ∨ c = 'E'
    · simp [one, hc, behind, Function.comp_def]
    · simp [one, hc, behind]

/-! ## Quoted lexemes -/

theorem rounds_quotedItem (n : Nat) (hn : t.length ≤ n) :
    behind (rounds (quotedItem '"') n t).1
      (one (· == '"') (rounds (quotedItem '"') n t).2) = stringEnd? t := by
  fun_induction stringEnd? t generalizing n with
  | case1 => cases n <;> rfl
  | case2 t =>
    obtain ⟨n, rfl⟩ := Nat.exists_eq_succ_of_ne_zero (Nat.ne_zero_of_lt hn)
    rfl
  | case3 t =>
    obtain ⟨n, rfl⟩ := Nat.exists_eq_succ_of_ne_zero (Nat.ne_zero_of_lt hn)
    rfl
  | case4 c t hc ih =>
    obtain ⟨n, rfl⟩ := Nat.exists_eq_succ_of_ne_zero (Nat.ne_zero_of_lt hn)
    have hitem : quotedItem '"' ('\\' :: c :: t) = some (['\\', c], t) := by
      simp [quotedItem, one, andThen, behind, hc]
    rw [← ih n (by simp only [List.length_cons] at hn; omega)]
    simp [rounds, hitem, behind, Function.comp_def]
  | case5 =>
    obtain ⟨n, rfl⟩ := Nat.exists_eq_succ_of_ne_zero (Nat.ne_zero_of_lt hn)
    rfl
  | case6 c t hquote hescaped hlast ih =>
    obtain ⟨n, rfl⟩ := Nat.exists_eq_succ_of_ne_zero (Nat.ne_zero_of_lt hn)
    have hback : c ≠ '\\' := by
      rintro rfl
      rcases t with - | ⟨d, u⟩
      · exact hlast rfl rfl
      · exact hescaped d u rfl rfl
    have hitem : quotedItem '"' (c :: t) = some ([c], t) := by
      have hplain : (c != '"' && c != '\\') = true := by simpa [hback] using hquote
      simp [quotedItem, one, hplain]
    rw [← ih n (Nat.le_of_succ_le_succ hn)]
    simp [rounds, hitem, behind, Function.comp_def]

theorem quoted_string :
    andThen (one (· == '"')) (andThen (many (quotedItem '"')) (one (· == '"'))) =
      stringLexeme? := by
  funext t
  rcases t with - | ⟨c, t⟩
  · rfl
  by_cases hc : c = '"'
  · subst hc
    rw [andThen_one_of_pos rfl, stringLexeme?,
      ← rounds_quotedItem (t.length + 1) (Nat.le_succ t.length)]
    rfl
  · rw [andThen_one_of_neg (by simpa using hc)]
    simp [stringLexeme?, hc]

/-- One character and what is left. -/
theorem one_eq_some_iff :
    one holds t = some (l, r) ↔ ∃ c, holds c = true ∧ l = [c] ∧ t = c :: r := by
  rcases t with - | ⟨d, t⟩
  · simp [one]
  · by_cases hd : holds d = true
    · simp only [one, if_pos hd, Option.some.injEq, Prod.mk.injEq]
      constructor
      · rintro ⟨rfl, rfl⟩
        exact ⟨d, hd, rfl, rfl⟩
      · rintro ⟨c, -, rfl, heq⟩
        obtain ⟨rfl, rfl⟩ := List.cons.inj heq
        exact ⟨rfl, rfl⟩
    · simp only [one, if_neg hd, reduceCtorEq, false_iff]
      rintro ⟨c, hc, -, heq⟩
      obtain ⟨rfl, -⟩ := List.cons.inj heq
      exact hd hc

theorem andThen_eq_some_iff :
    andThen f g t = some (l, r) ↔
      ∃ l₁ m l₂, f t = some (l₁, m) ∧ g m = some (l₂, r) ∧ l = l₁ ++ l₂ := by
  constructor
  · intro h
    obtain ⟨⟨l₁, m⟩, hf, hbehind⟩ := Option.bind_eq_some_iff.mp h
    obtain ⟨l₂, hg, rfl⟩ := behind_eq_some hbehind
    exact ⟨l₁, m, l₂, hf, hg, rfl⟩
  · rintro ⟨l₁, m, l₂, hf, hg, rfl⟩
    simp [andThen, hf, hg, behind]

theorem quotedItem_eq_some_iff :
    quotedItem quote t = some (l, r) ↔ t = l ++ r ∧ QuotedItem quote l := by
  rw [quotedItem, Option.or_eq_some_iff, one_eq_some_iff, andThen_eq_some_iff]
  simp only [one_eq_some_iff]
  constructor
  · rintro (⟨c, hc, rfl, rfl⟩ | ⟨-, l₁, m, l₂, ⟨b, hb, rfl, rfl⟩, ⟨c, hc, rfl, rfl⟩, rfl⟩)
    · simp only [Bool.and_eq_true, bne_iff_ne] at hc
      exact ⟨rfl, .plain hc.1 hc.2⟩
    · obtain rfl := beq_iff_eq.mp hb
      exact ⟨rfl, .escaped (by simpa using hc)⟩
  · rintro ⟨rfl, hi⟩
    cases hi with
    | @plain c hq hb => exact .inl ⟨c, by simp [hq, hb], rfl, rfl⟩
    | @escaped c hc =>
      exact .inr ⟨by simp [one], ['\\'], c :: r, [c], ⟨'\\', rfl, rfl, rfl⟩,
        ⟨c, by simpa using hc, rfl, rfl⟩, rfl⟩

theorem quoted_char :
    andThen (one (· == '\'')) (andThen (quotedItem '\'') (one (· == '\''))) = charLexeme? := by
  funext t
  refine Option.ext fun ⟨l, r⟩ => ?_
  simp only [andThen_eq_some_iff, quotedItem_eq_some_iff, one_eq_some_iff, beq_iff_eq]
  constructor
  · rintro ⟨-, -, -, ⟨-, rfl, rfl, rfl⟩, ⟨i, -, -, ⟨rfl, hi⟩, ⟨-, rfl, rfl, rfl⟩, rfl⟩, rfl⟩
    have h := charLexeme?_member (.mk hi) r
    simpa using h
  · intro h
    obtain ⟨rfl, @⟨i, hi⟩⟩ := charLexeme_of_charLexeme? h
    exact ⟨['\''], i ++ '\'' :: r, i ++ ['\''], ⟨'\'', rfl, rfl, by simp⟩,
      ⟨i, '\'' :: r, ['\''], ⟨rfl, hi⟩, ⟨'\'', rfl, rfl, rfl⟩, rfl⟩, rfl⟩

end Text

end StraightLine
