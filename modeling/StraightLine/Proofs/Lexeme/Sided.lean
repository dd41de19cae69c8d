import StraightLine.Proofs.Lexer.Leaves

/-!
# Sides of a point — floats that the lexer takes apart

A float may lack the digits on one side of its point, but the lexer knows
only floats with digits on both. It takes any other apart: the digits are a
number of their own, and an exponent becomes a name, with a number behind it
where it has a sign.

`Sided ahead s` rules this out for a text: where the point of `s` and the
digits behind it are followed by what `ahead` tells, an exponent say, digits
stand on both sides of the point. `Yields.float_lexeme` says what a float
yields in any case: one leaf more than a number exactly where the condition
does not hold.
-/

namespace StraightLine

namespace Text

variable {ahead : Text → Bool} {s t r ds exponent : Text}

/-! ## Conditions on points -/

/-- A text starts with the letter of an exponent. -/
def exponentAhead : Text → Bool
  | [] => false
  | c :: _ => c == 'e' || c == 'E'

/-- A text starts with the letter of an exponent and a sign. -/
def signedExponentAhead : Text → Bool
  | c :: d :: _ => (c == 'e' || c == 'E') && (d == '+' || d == '-')
  | _ => false

/-- **Digits stand on both sides** of every point whose digits are followed
by what a test tells. -/
def Sided (ahead : Text → Bool) (s : Text) : Prop :=
  ∀ front back, s = front ++ '.' :: back → ahead (back.dropWhile Char.isDigit) = true →
    (∃ c, front.getLast? = some c ∧ c.isDigit = true) ∧
      ∃ c, back.head? = some c ∧ c.isDigit = true

/-- The condition with the point counted off. -/
theorem sided_iff : Sided ahead s ↔ ∀ i < s.length, s[i]? = some '.' →
    ahead ((s.drop (i + 1)).dropWhile Char.isDigit) = true →
      (s.take i).getLast?.any Char.isDigit = true ∧
        (s.drop (i + 1)).head?.any Char.isDigit = true := by
  constructor
  · intro h i hi hdot hahead
    have hsplit : s = s.take i ++ '.' :: s.drop (i + 1) := by
      rw [List.getElem?_eq_getElem hi, Option.some.injEq] at hdot
      rw [← hdot, List.getElem_cons_drop, List.take_append_drop]
    obtain ⟨⟨c, hc, hcd⟩, d, hd, hdd⟩ := h _ _ hsplit hahead
    rw [hc, hd]
    exact ⟨hcd, hdd⟩
  · rintro h front back rfl hahead
    have hback : (front ++ '.' :: back).drop (front.length + 1) = back := by simp
    have hfront : (front ++ '.' :: back).take front.length = front := by simp
    obtain ⟨hc, hd⟩ := h front.length (by simp) (by simp) (by rwa [hback])
    rw [hfront, Option.any_eq_true] at hc
    rw [hback, Option.any_eq_true] at hd
    exact ⟨hc, hd⟩

theorem sided_nil : Sided ahead [] := fun front back h => by simp at h

instance : Decidable (Sided ahead s) := decidable_of_iff _ sided_iff.symm

/-- **A later part keeps the condition** when it starts with no point, or the
part in front ends in no digit. -/
theorem Sided.later (h : Sided ahead (s ++ t))
    (hst : t.head? ≠ some '.' ∨ ∀ c, s.getLast? = some c → c.isDigit = false) :
    Sided ahead t := by
  rintro front back rfl hahead
  obtain ⟨⟨c, hc, hcd⟩, hback⟩ := h (s ++ front) back (by simp) hahead
  refine ⟨?_, hback⟩
  cases front with
  | nil =>
    -- the digit in front of the point would end the part in front
    rw [List.append_nil] at hc
    rcases hst with hst | hst
    · exact absurd rfl hst
    · exact absurd (hst c hc) (by simp [hcd])
  | cons d front =>
    rw [List.getLast?_append, List.getLast?_eq_some_getLast (List.cons_ne_nil d front)] at hc
    exact ⟨c, hc, hcd⟩

/-- A point stands behind a part that has none. -/
theorem exists_eq_append_of_point {front back : Text} (hs : '.' ∉ s)
    (h : s ++ t = front ++ '.' :: back) : ∃ a, front = s ++ a ∧ t = a ++ '.' :: back := by
  rcases List.append_eq_append_iff.mp h with h | ⟨a, rfl, ha⟩
  · exact h
  · cases a with
    | nil => exact ⟨[], by simp, ha.symm⟩
    | cons c a =>
      obtain rfl := (List.cons.inj ha).1
      exact absurd (List.mem_append_right front List.mem_cons_self) hs

/-- **A part without points** in front of a text keeps the condition. -/
theorem Sided.behind (hs : '.' ∉ s) (h : Sided ahead t) : Sided ahead (s ++ t) := by
  intro front back heq hahead
  obtain ⟨a, rfl, rfl⟩ := exists_eq_append_of_point hs heq
  obtain ⟨⟨c, hc, hcd⟩, hback⟩ := h a back rfl hahead
  exact ⟨⟨c, by rw [List.getLast?_append, hc, Option.some_or], hcd⟩, hback⟩

/-- So does a part with one point that meets it. -/
theorem Sided.behind_point (hs : '.' ∉ s) (h : Sided ahead t)
    (hpoint : ahead (t.dropWhile Char.isDigit) = true →
      (∃ c, s.getLast? = some c ∧ c.isDigit = true) ∧ ∃ c, t.head? = some c ∧ c.isDigit = true) :
    Sided ahead (s ++ '.' :: t) := by
  intro front back heq hahead
  obtain ⟨a, rfl, ha⟩ := exists_eq_append_of_point hs heq
  cases a with
  | nil =>
    obtain rfl := (List.cons.inj ha).2
    rw [List.append_nil]
    exact hpoint hahead
  | cons d a =>
    obtain ⟨rfl, rfl⟩ := List.cons.inj ha
    obtain ⟨⟨c, hc, hcd⟩, hback⟩ := h a back rfl hahead
    refine ⟨⟨c, ?_, hcd⟩, hback⟩
    rw [List.getLast?_append, List.getLast?_cons, hc]
    rfl

/-- **A part without points** does not matter to the condition, unless it ends
in a digit in front of a point. -/
theorem sided_append_iff (hs : '.' ∉ s)
    (hst : t.head? ≠ some '.' ∨ ∀ c, s.getLast? = some c → c.isDigit = false) :
    Sided ahead (s ++ t) ↔ Sided ahead t :=
  ⟨fun h => h.later hst, fun h => h.behind hs⟩

/-! ## Lexemes without points -/

theorem AllDigits.point_not_mem (hds : AllDigits ds) : '.' ∉ ds := fun hdot =>
  absurd (hds '.' hdot) (by decide)

theorem Exponent.point_not_mem (he : Exponent exponent) : '.' ∉ exponent := by
  cases he with
  | none => exact List.not_mem_nil
  | @some letter sign ds hletter hs hds =>
    have hds := hds.all.point_not_mem
    have hsign : '.' ∉ sign := by rcases hs with rfl | rfl | rfl <;> decide
    rcases hletter with rfl | rfl
    · simp [hsign, hds]
    · simp [hsign, hds]

theorem IntegerLexeme.point_not_mem {l : Text} {v : Int} (hl : IntegerLexeme l v) : '.' ∉ l := by
  cases hl with
  | plain hds => exact hds.all.point_not_mem
  | minus hds =>
    refine List.not_mem_cons_of_ne_of_not_mem ?_ hds.all.point_not_mem
    decide

theorem NameLexeme.point_not_mem {l : Text} (hl : NameLexeme l) : '.' ∉ l := by
  obtain ⟨hc, hcs⟩ := hl
  intro hdot
  rcases List.mem_cons.mp hdot with rfl | hdot
  · exact absurd hc (by decide)
  · exact absurd (hcs '.' hdot) (by decide)

/-! ## Exponents that stand alone -/

/-- No keyword is the letter of an exponent, alone or with a digit behind it. -/
theorem exponent_ne_keyword {c : Char} (hc : c = 'e' ∨ c = 'E') (hds : AllDigits ds)
    (k : Keyword) : k.spelling.toList ≠ c :: ds := by
  have hnone : ∀ k ∈ Keyword.all, exponentAhead k.spelling.toList = true →
      k.spelling.toList.tail ≠ [] ∧ k.spelling.toList.tail.all Char.isDigit = false := by
    decide +kernel
  intro h
  obtain ⟨-, hall⟩ := hnone k (by cases k <;> decide) (by simp [h, exponentAhead, hc])
  rw [h, List.tail_cons, List.all_eq_true.mpr hds] at hall
  cases hall

/-- **Where phrases end**: no lexeme goes on, and no symbol becomes longer. -/
structure Ends (r : Text) : Prop where
  breaks : Breaks r
  outside : StartsOutside Yields.isJoint r

theorem Digits.startsOutside_isJoint (hds : Digits ds) (t : Text) :
    StartsOutside Yields.isJoint (ds ++ t) := by
  obtain ⟨c, u, rfl⟩ := List.exists_cons_of_ne_nil hds.nonempty
  exact startsOutside_cons (Yields.isJoint_eq_false_of_isDigit (hds.all c List.mem_cons_self))

/-- An exponent extends neither digits nor a symbol. -/
theorem Exponent.startsOutside (he : Exponent exponent) (hr : Ends r) :
    StartsOutside extendsDigits (exponent ++ r) ∧ StartsOutside Yields.isJoint (exponent ++ r) ∧
      ∀ u, exponent ++ r ≠ '.' :: u := by
  cases he with
  | none =>
    refine ⟨hr.breaks.startsOutside_extendsDigits, hr.outside, fun u hu => ?_⟩
    obtain rfl : r = '.' :: u := hu
    exact (hr.breaks '.' rfl).2 rfl
  | some hletter hs hds =>
    rcases hletter with rfl | rfl
    · exact ⟨startsOutside_cons (by decide), startsOutside_cons (by decide), by simp⟩
    · exact ⟨startsOutside_cons (by decide), startsOutside_cons (by decide), by simp⟩

/-- **The condition at a float**: it has digits on both sides of its point, or
nothing that the test tells comes behind them. -/
theorem sided_float_iff {whole part : Text} (hw : AllDigits whole) (hp : AllDigits part)
    (he : Exponent exponent) (hr : Ends r) :
    Sided ahead (whole ++ '.' :: (part ++ (exponent ++ r))) ↔
      (ahead (exponent ++ r) = true → whole ≠ [] ∧ part ≠ []) ∧ Sided ahead r := by
  have hdigits := (he.startsOutside hr).1.isDigit_of_extendsDigits
  have hdrop : (part ++ (exponent ++ r)).dropWhile Char.isDigit = exponent ++ r :=
    dropWhile_append hp hdigits
  constructor
  · intro h
    refine ⟨fun hahead => ?_, ?_⟩
    · obtain ⟨⟨c, hc, -⟩, d, hd, hdd⟩ := h whole _ rfl (by rwa [hdrop])
      refine ⟨?_, ?_⟩
      · rintro rfl
        cases hc
      · rintro rfl
        exact absurd (hdigits d hd) (by simp [hdd])
    · have happ : whole ++ '.' :: (part ++ (exponent ++ r)) =
          whole ++ '.' :: (part ++ exponent) ++ r := by simp
      rw [happ] at h
      exact h.later (.inl fun hdot => (hr.breaks '.' hdot).2 rfl)
  · rintro ⟨hahead, h⟩
    refine ((h.behind he.point_not_mem).behind hp.point_not_mem).behind_point hw.point_not_mem
      fun hd => ?_
    obtain ⟨hwhole, hpart⟩ := hahead (by rwa [hdrop] at hd)
    obtain ⟨d, part, rfl⟩ := List.exists_cons_of_ne_nil hpart
    exact ⟨⟨_, List.getLast?_eq_some_getLast hwhole, hw _ (List.getLast_mem hwhole)⟩,
      d, rfl, hp d List.mem_cons_self⟩

/-! ## What comes loose -/

/-- **Exponents that `ahead` tells** come loose as leaves that `holds`: all of
them as names, and those with a sign as numbers too. -/
inductive Loosens : (Text → Bool) → (Leaf → Bool) → Prop
  | name : Loosens exponentAhead Leaf.isName
  | number : Loosens signedExponentAhead Leaf.isNumber

theorem Loosens.eq_false_of_breaks {holds : Leaf → Bool} (h : Loosens ahead holds)
    (hr : r.Breaks) : ahead r = false := by
  cases r with
  | nil => cases h <;> rfl
  | cons c u =>
    have hc : (c == 'e' || c == 'E') = false := by
      by_contra he
      rw [Bool.not_eq_false, Bool.or_eq_true, beq_iff_eq, beq_iff_eq] at he
      rcases he with rfl | rfl
      · exact absurd (hr 'e' rfl).1 (by decide)
      · exact absurd (hr 'E' rfl).1 (by decide)
    cases h with
    | name => exact hc
    | number =>
      cases u with
      | nil => rfl
      | cons d u => rw [signedExponentAhead, hc, Bool.false_and]

/-- Digits are no sign. -/
theorem signedExponentAhead_digits (hds : Digits ds) (c : Char) (t : Text) :
    signedExponentAhead (c :: ds ++ t) = false := by
  obtain ⟨d, u, rfl⟩ := List.exists_cons_of_ne_nil hds.nonempty
  have hd := hds.all d List.mem_cons_self
  have hsign : (d == '+' || d == '-') = false := by
    by_contra hs
    rw [Bool.not_eq_false, Bool.or_eq_true, beq_iff_eq, beq_iff_eq] at hs
    rcases hs with rfl | rfl
    · exact absurd hd (by decide)
    · exact absurd hd (by decide)
  rw [List.cons_append, List.cons_append, signedExponentAhead, hsign, Bool.and_false]

end Text

namespace Yields

open Text

variable {r ds exponent : Text} {leaves : List Leaf}

/-- Digits in front of an end. -/
theorem digits_end (hds : Digits ds) (hr : r.Breaks) (h : Yields r leaves) :
    Yields (ds ++ r) (.number :: leaves) :=
  digits hds hr.startsOutside_extendsDigits
    (fun _ hu => absurd rfl (hr '.' (hu ▸ rfl)).2) h

/-- **An exponent on its own** is a name, and a number when it has a sign. -/
theorem exponent_alone (he : Exponent exponent) (hr : Ends r) (h : Yields r leaves) :
    ∃ tail, Yields (exponent ++ r) (tail ++ leaves) ∧
      ∀ ahead holds, Loosens ahead holds →
        (ahead (exponent ++ r) = false ↔ tail.countP holds = 0) := by
  cases he with
  | none =>
    exact ⟨[], h, fun ahead holds hl => iff_of_true (hl.eq_false_of_breaks hr.breaks) rfl⟩
  | @some letter sign ds hletter hs hds =>
    have hstart : isNameStart letter = true := by
      rcases hletter with rfl | rfl
      · decide
      · decide
    have hexp : (letter == 'e' || letter == 'E') = true := by simpa using hletter
    have hjoint := hds.startsOutside_isJoint r
    have hnumber := digits_end hds hr.breaks h
    -- the letter in front of a sign is a name of its own
    have hsigned : ∀ {c : Char} {u : Text}, c = '+' ∨ c = '-' →
        Yields (c :: u) (.number :: leaves) →
        ∃ tail, Yields (letter :: c :: u) (tail ++ leaves) ∧
          ∀ ahead holds, Loosens ahead holds →
            (ahead (letter :: c :: u) = false ↔ tail.countP holds = 0) := by
      intro c u hc hu
      refine ⟨[.name [letter], .number], ?_, fun ahead holds hl => ?_⟩
      · refine name (v := [letter]) (.mk hstart (by simp))
          (exponent_ne_keyword hletter (show AllDigits [] by simp [AllDigits])) ?_ hu
        rcases hc with rfl | rfl
        · exact breaks_cons (by decide) (by decide)
        · exact breaks_cons (by decide) (by decide)
      · have hsign : (c == '+' || c == '-') = true := by simpa using hc
        cases hl with
        | name =>
          refine iff_of_false ?_ Nat.one_ne_zero
          rw [exponentAhead, hexp]
          decide
        | number =>
          refine iff_of_false ?_ Nat.one_ne_zero
          rw [signedExponentAhead, hexp, hsign]
          decide
    rcases hs with rfl | rfl | rfl
    · refine ⟨[.name (letter :: ds)], ?_, fun ahead holds hl => ?_⟩
      · exact name (.mk hstart fun d hd => isNameChar_of_isDigit (hds.all d hd))
          (exponent_ne_keyword hletter hds.all) hr.breaks h
      · cases hl with
        | name =>
          refine iff_of_false ?_ Nat.one_ne_zero
          rw [List.cons_append, exponentAhead, hexp]
          decide
        | number => exact iff_of_true (signedExponentAhead_digits hds letter r) rfl
    · exact hsigned (.inr rfl) (minus hjoint hnumber)
    · exact hsigned (.inl rfl) (plain_symbol (s := .plus) (by decide) (by decide) hjoint hnumber)

/-- A point on its own yields nothing. -/
theorem point {t : Text} (ht : StartsOutside isJoint t) (h : Yields t leaves) :
    Yields ('.' :: t) leaves :=
  plain_symbol (s := .dot) (by decide) (by decide) ht h

/-- **A float without a minus** yields a number, and what its exponent yields
when digits are missing on one side of its point. -/
theorem float_unsigned {whole part : Text} (hw : AllDigits whole) (hp : AllDigits part)
    (hne : whole ≠ [] ∨ part ≠ []) (he : Exponent exponent) (hr : Ends r) (h : Yields r leaves) :
    ∃ tail, Yields (whole ++ '.' :: (part ++ (exponent ++ r))) (.number :: tail ++ leaves) ∧
      ∀ ahead holds, Loosens ahead holds →
        (Sided ahead (whole ++ '.' :: (part ++ (exponent ++ r))) ↔
          tail.countP holds = 0 ∧ Sided ahead r) := by
  by_cases hfull : whole ≠ [] ∧ part ≠ []
  · obtain ⟨hwhole, hpart⟩ := hfull
    have hfloat := float (.mk ⟨hwhole, hw⟩ ⟨hpart, hp⟩ he) hr.breaks h
    rw [List.append_assoc, List.cons_append, List.append_assoc] at hfloat
    refine ⟨[], hfloat, fun ahead holds _ => ?_⟩
    rw [sided_float_iff hw hp he hr]
    exact and_congr_left fun _ => iff_of_true (fun _ => ⟨hwhole, hpart⟩) rfl
  · obtain ⟨tail, htail, hloose⟩ := exponent_alone he hr h
    obtain ⟨hdigits, hjoint, hdot⟩ := he.startsOutside hr
    refine ⟨tail, ?_, fun ahead holds hl => ?_⟩
    · by_cases hwhole : whole = []
      · have hpart := hne.resolve_left (not_not_intro hwhole)
        have hpoint := point (Digits.startsOutside_isJoint ⟨hpart, hp⟩ (exponent ++ r))
          (digits ⟨hpart, hp⟩ hdigits (fun u hu => absurd hu (hdot u)) htail)
        rwa [hwhole]
      · obtain rfl : part = [] := by
          by_contra hpart
          exact hfull ⟨hwhole, hpart⟩
        refine digits ⟨hwhole, hw⟩ (startsOutside_cons (by decide)) ?_ (point hjoint htail)
        intro u hu
        obtain rfl := (List.cons.inj hu).2
        exact hdigits.isDigit_of_extendsDigits
    · rw [sided_float_iff hw hp he hr, ← hloose ahead holds hl, ← Bool.not_eq_true]
      exact and_congr_left fun _ => ⟨fun h hahead => hfull (h hahead), fun h hahead =>
        absurd hahead h⟩

/-- **A float** yields a number, and what its exponent yields when digits are
missing on one side of its point. -/
theorem float_lexeme {l : Text} (hl : FloatLexeme l) (hr : Ends r) (h : Yields r leaves) :
    ∃ tail, Yields (l ++ r) (.number :: tail ++ leaves) ∧
      ∀ ahead holds, Loosens ahead holds →
        (Sided ahead (l ++ r) ↔ tail.countP holds = 0 ∧ Sided ahead r) := by
  obtain @⟨sign, whole, part, exponent, hm, hw, hp, hne, he⟩ := hl
  obtain ⟨tail, htail, hloose⟩ := float_unsigned hw hp hne he hr h
  have happ : sign ++ whole ++ '.' :: (part ++ exponent) ++ r =
      sign ++ (whole ++ '.' :: (part ++ (exponent ++ r))) := by simp
  rw [happ]
  rcases hm with rfl | rfl
  · exact ⟨tail, htail, hloose⟩
  · refine ⟨tail, minus ?_ htail, fun ahead holds hl => ?_⟩
    · cases whole with
      | nil => exact startsOutside_cons (by decide)
      | cons c whole =>
        exact startsOutside_cons (isJoint_eq_false_of_isDigit (hw c List.mem_cons_self))
    · rw [sided_append_iff (by decide) (.inr (by simp)), hloose ahead holds hl]

/-- An integer yields a number. -/
theorem integer_lexeme {l : Text} {v : Int} (hl : IntegerLexeme l v) (hr : r.Breaks)
    (h : Yields r leaves) : Yields (l ++ r) (.number :: leaves) := by
  cases hl with
  | plain hds => exact digits_end hds hr h
  | minus hds => exact minus (hds.startsOutside_isJoint r) (digits_end hds hr h)

end Yields

end StraightLine
