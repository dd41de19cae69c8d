import StraightLine.Proofs.Lexer.Longest

/-!
# Leaves — the names and numbers among the tokens of a text

`Yields t leaves` says what names and numbers a lexer finds from a text to its
end, wherever the text stands. It is built up from the end of the text: in
front of a text that yields some leaves, a name or a number adds one
(`Yields.name`, `Yields.digits`, `Yields.float`), a symbol none
(`Yields.symbol`).

A minus adds none either, although a number behind it takes it up
(`Yields.minus`): whether it is a token or part of one, the leaves are the
same. That is why leaves, unlike tokens, can be told phrase by phrase.
-/

namespace StraightLine

/-- A name, or a number of any kind. -/
inductive Leaf where
  | name (n : Text)
  | number
  deriving DecidableEq, Repr

namespace Leaf

/-- The name, when it is one. -/
def name? : Leaf → Option Text
  | name n => some n
  | number => none

/-- Whether it is a name. -/
def isName (l : Leaf) : Bool := l.name?.isSome

/-- Whether it is a number. -/
def isNumber : Leaf → Bool
  | name _ => false
  | number => true

end Leaf

/-- The leaf that a token of a kind with a value is. -/
def TokenKind.leaf? (value : Text) : TokenKind → Option Leaf
  | identifier => some (.name value)
  | integer => some .number
  | float => some .number
  | _ => none

/-- The leaf that a token is. -/
def Token.leaf? (t : Token) : Option Leaf := t.kind.leaf? t.value

/-- The leaves of some tokens, in their order. -/
def Token.leaves (ts : List Token) : List Leaf := ts.filterMap leaf?

theorem Token.leaves_cons (t : Token) (ts : List Token) :
    leaves (t :: ts) = t.leaf?.toList ++ leaves ts := by
  rw [leaves, List.filterMap_cons]
  cases t.leaf? with
  | none => rfl
  | some l => rfl

namespace Lexer

variable {x : Lexicon} {before b ahead v rest : Text} {n : Nat} {kind : TokenKind}
  {place : Place}

/-- **Blanks in front** change no token. -/
theorem tokens_readUpTo_blank (hb : b.Blank) (before ahead : Text) (n : Nat) :
    ((standing x before (b ++ ahead)).readUpTo n).tokens =
      ((standing x (before ++ b) ahead).readUpTo n).tokens := by
  cases n with
  | zero => rfl
  | succ n =>
    by_cases hend : ahead.trimStart = []
    · have hblank := Text.trimStart_eq_nil_iff.mp hend
      simp only [readUpTo, nextToken, expectOf, nextOf_of_blank x before _ (hb.append hblank),
        nextOf_of_blank x (before ++ b) _ hblank, Token.endOfInput, if_true, List.append_assoc]
    · -- the lexicon is asked for the same text at the same place
      have htrim : (b ++ ahead).trimStart = ahead.trimStart := Text.trimStart_append hb ahead
      have htake : (b ++ ahead).takeWhile isBlank = b ++ ahead.takeWhile isBlank :=
        List.takeWhile_append_of_pos hb
      have hnext := nextOf_of_not_blank x before TokenKind.all
        (show (b ++ ahead).trimStart ≠ [] by rwa [htrim])
      have hnext' := nextOf_of_not_blank x (before ++ b) TokenKind.all hend
      rw [htrim, htake, ← List.append_assoc] at hnext
      simp only [readUpTo, nextToken, expectOf, hnext, hnext']
      rcases x.tokenOf? TokenKind.all ahead.trimStart
        (Place.start.after (before ++ b ++ ahead.takeWhile isBlank)) with - | t
      · rfl
      · rfl

/-- **A token that is taken** comes first, and the lexer goes on behind it. -/
theorem tokens_readUpTo_token (hx : x.Anchored) (hv : ∃ c u, v = c :: u ∧ isBlank c = false)
    (h : x.tokenOf? TokenKind.all (v ++ rest) (Place.start.after before) =
      some ⟨kind, v, place⟩) :
    ((standing x before (v ++ rest)).readUpTo (n + 1)).tokens =
      ⟨kind, v, place⟩ :: ((standing x (before ++ v) rest).readUpTo n).tokens := by
  obtain ⟨c, u, rfl, hc⟩ := hv
  have hkind : kind ≠ .endOfInput := (hx.tokenOf?_eq_some h).1.kind_ne hx
  have hnext := nextToken_of_tokenOf? (b := []) (t := ⟨kind, c :: u, place⟩) Text.blank_nil
    (Text.startsOutside_cons (t := u ++ rest) hc) (List.cons_ne_nil c (u ++ rest))
    (by rwa [List.append_nil])
  rw [List.nil_append, List.append_nil] at hnext
  simp only [readUpTo, hnext, if_neg hkind]

end Lexer

/-! ## What a text yields -/

/-- **The leaves that a lexer finds** from a text to its end. -/
def Yields (t : Text) (leaves : List Leaf) : Prop :=
  ∀ before n, t.length < n →
    Token.leaves ((Lexer.standing .standard before t).readUpTo n).tokens = leaves

namespace Yields

open Lexicon

variable {t v b ds rest : Text} {leaves : List Leaf} {leaf : Option Leaf}

/-- Blanks yield nothing. -/
theorem done (hb : b.Blank) : Yields b [] := by
  intro before n hn
  obtain ⟨n, rfl⟩ : ∃ m, n = m + 1 := ⟨n - 1, by omega⟩
  simp only [Lexer.readUpTo, Lexer.nextToken, Lexer.expectOf,
    Lexer.nextOf_of_blank standard before _ hb, Token.endOfInput, if_true]
  rfl

/-- Nor do they in front of a text. -/
theorem blank (hb : b.Blank) (h : Yields t leaves) : Yields (b ++ t) leaves := by
  intro before n hn
  rw [List.length_append] at hn
  rw [Lexer.tokens_readUpTo_blank hb]
  exact h (before ++ b) n (by omega)

/-- **A token in front of a text** adds its leaf, if it is one. -/
theorem token (leaf : Option Leaf) (hv : ∃ c u, v = c :: u ∧ isBlank c = false)
    (htok : ∀ place, ∃ kind : TokenKind, kind.leaf? v = leaf ∧
      standard.tokenOf? TokenKind.all (v ++ rest) place = some ⟨kind, v, place⟩)
    (h : Yields rest leaves) : Yields (v ++ rest) (leaf.toList ++ leaves) := by
  intro before n hn
  obtain ⟨c, u, heq, -⟩ := id hv
  obtain ⟨n, rfl⟩ : ∃ m, n = m + 1 := ⟨n - 1, by omega⟩
  obtain ⟨kind, hleaf, htok⟩ := htok (Place.start.after before)
  have hrest : rest.length < n := by
    rw [heq, List.length_append, List.length_cons] at hn
    omega
  rw [Lexer.tokens_readUpTo_token standard_anchored hv htok, Token.leaves_cons, Token.leaf?, hleaf,
    h (before ++ v) n hrest]

/-! ## Names -/

/-- A prefix whose characters are all of a class does not go beyond a run of
the class. -/
theorem length_le_of_run {holds : Char → Bool} {w r : Text} (heq : v ++ rest = w ++ r)
    (hw : ∀ c ∈ w, holds c = true) (hrest : Text.StartsOutside holds rest) :
    w.length ≤ v.length := by
  rcases List.append_eq_append_iff.mp heq with ⟨a, rfl, rfl⟩ | ⟨a, rfl, -⟩
  · cases a with
    | nil => simp
    | cons c a =>
      have hc := hw c (List.mem_append_right v List.mem_cons_self)
      exact absurd (hrest c rfl) (by simp [hc])
  · simp

/-- **A name** that is no keyword yields itself. -/
theorem name (hl : Text.NameLexeme v) (hk : ∀ k : Keyword, k.spelling.toList ≠ v)
    (hr : rest.Breaks) (h : Yields rest leaves) : Yields (v ++ rest) (.name v :: leaves) := by
  obtain ⟨c, u, rfl, hstart, hblank⟩ := hl.exists_head
  refine token (some (.name (c :: u))) ⟨c, u, rfl, hblank⟩ (fun place => ?_) h
  have hread := Text.nameLexeme?_append hl hr
  refine standard_takes (P := fun kind => kind.leaf? (c :: u) = some (.name (c :: u)))
    (exists_rule_of_lexeme? (k := .identifier) hread) (fun kind w r hfound heq => ?_) place
  cases hfound with
  | keyword k hkw _ =>
    -- a keyword that goes as far is the name
    have hchars : ∀ d ∈ w, Text.isNameChar d = true := by
      have hw : Text.NameLexeme w := hkw ▸ k.nameLexeme
      obtain ⟨hd, hds⟩ := hw
      exact List.forall_mem_cons.mpr ⟨Text.isNameChar_of_isNameStart hd, hds⟩
    have hle := length_le_of_run heq hchars fun d hd => (hr d hd).1
    refine .inl (lt_of_le_of_ne hle fun hlen => ?_)
    exact hk k (hkw.symm.trans (List.append_inj_left heq hlen.symm).symm)
  | symbol s _ hc =>
    rw [Text.isNameChar_of_isNameStart hstart] at hc
    cases hc
  | name h _ =>
    obtain ⟨hwv, -⟩ := Prod.mk.inj (Option.some.inj (hread.symm.trans h))
    exact .inr ⟨hwv.symm, rfl⟩
  | number _ _ hn => exact absurd hn (Text.not_startsNumber_of_isNameStart hstart _)
  | quoted _ hc =>
    rcases hc with rfl | rfl
    · exact absurd hstart (by decide)
    · exact absurd hstart (by decide)

/-! ## Symbols -/

variable {c : Char} {u : Text}

/-- The symbols of programs. -/
def signs : List Symbol :=
  [.leftParen, .rightParen, .semicolon, .dot, .plus, .minus, .star, .slash, .percent, .equal,
    .plusEqual, .minusEqual, .starEqual, .slashEqual, .percentEqual]

/-- The characters that make a longer symbol of one in programs. -/
def isJoint (c : Char) : Bool := c == '=' || c == '>'

/-- No class without these two has them. -/
theorem isJoint_eq_false_of {holds : Char → Bool} (heq : holds '=' = false)
    (hgt : holds '>' = false) (hc : holds c = true) : isJoint c = false := by
  by_contra hj
  rw [Bool.not_eq_false, isJoint, Bool.or_eq_true, beq_iff_eq, beq_iff_eq] at hj
  rcases hj with rfl | rfl
  · exact Bool.false_ne_true (heq.symm.trans hc)
  · exact Bool.false_ne_true (hgt.symm.trans hc)

theorem isJoint_eq_false_of_isDigit (hc : c.isDigit = true) : isJoint c = false :=
  isJoint_eq_false_of (by decide) (by decide) hc

/-- Only such a character makes one of them longer. -/
theorem isJoint_of_longer {s s' : Symbol} (hs : s ∈ signs)
    (h : s'.spelling.toList = s.spelling.toList ++ c :: u) : isJoint c = true := by
  have hall : ∀ s ∈ signs, ∀ s' ∈ Symbol.all,
      s.spelling.toList.isPrefixOf s'.spelling.toList = true →
        (s'.spelling.toList.drop s.spelling.toList.length).head?.all isJoint = true := by
    decide +kernel
  have hjoint := hall s hs s' (TokenKind.symbol_mem_all s') (by simp [h])
  simpa [h] using hjoint

/-- **A symbol** yields nothing, where it is not the start of a longer one or
of a number. -/
theorem symbol {s : Symbol} (hs : s ∈ signs) (hr : Text.StartsOutside isJoint rest)
    (hn : ¬ Text.StartsNumber (s.spelling.toList ++ rest)) (h : Yields rest leaves) :
    Yields (s.spelling.toList ++ rest) leaves := by
  obtain ⟨c, u, hcu, hname, hblank, hq, hq'⟩ := s.exists_head
  have hfind := exists_rule_of_symbol s rest
  have hlonger : ∀ s' : Symbol, ∀ {d z}, s'.spelling.toList = c :: u ++ d :: z →
      isJoint d = true := fun s' d z h => isJoint_of_longer hs (h.trans (by rw [hcu]))
  rw [hcu] at hn hfind ⊢
  have hnot : ¬ Text.isNameStart c = true := fun hc =>
    Bool.false_ne_true (hname.symm.trans (Text.isNameChar_of_isNameStart hc))
  refine token none ⟨c, u, rfl, hblank⟩ (fun place => ?_) h
  refine standard_takes (P := fun kind => kind.leaf? (c :: u) = none) hfind
    (fun kind w r hfound heq => ?_) place
  cases hfound with
  | keyword k _ hc => exact absurd hc hnot
  | symbol s' hw _ =>
    rcases List.append_eq_append_iff.mp heq with ⟨a, rfl, rfl⟩ | ⟨a, ha, -⟩
    · cases a with
      | nil => exact .inr ⟨List.append_nil _, rfl⟩
      | cons d a =>
        -- a longer symbol goes on with a character that does not follow
        exact absurd (hlonger s' hw.symm) (by simp [hr d rfl])
    · cases a with
      | nil => exact .inr ⟨(ha.trans (List.append_nil w)).symm, rfl⟩
      | cons d a => exact .inl (by rw [ha]; simp)
  | name _ hc => exact absurd hc hnot
  | number _ _ hn' => exact absurd hn' hn
  | quoted _ hc =>
    rcases hc with rfl | rfl
    · exact absurd rfl hq
    · exact absurd rfl hq'

/-- A symbol other than a minus starts no number. -/
theorem plain_symbol {s : Symbol} (hs : s ∈ signs) (hm : s ≠ .minus)
    (hr : Text.StartsOutside isJoint rest) (h : Yields rest leaves) :
    Yields (s.spelling.toList ++ rest) leaves := by
  have hall : ∀ s ∈ signs, s ≠ .minus →
      (Text.spanMinus s.spelling.toList).2.head?.any (fun c => !c.isDigit) = true := by
    decide +kernel
  obtain ⟨c, hc, hdigit⟩ := (Option.any_eq_true _ _).mp (hall s hs hm)
  exact symbol hs hr (Text.not_startsNumber hc (by simpa using hdigit) rest) h

/-! ## Numbers -/

/-- **A text that classes of numbers take**, from a digit or a minus and a
digit on, is a number. -/
theorem number_token (hv : ∃ minus d z, Text.IsMinus minus ∧ Char.isDigit d = true ∧
      v = minus ++ d :: z)
    (hfind : ∃ k : LexemeClass, k.lexeme? (v ++ rest) = some (v, rest))
    (hmax : ∀ k : LexemeClass, k.IsNumber → ∀ w r, k.lexeme? (v ++ rest) = some (w, r) →
      w.length < v.length ∨ w = v) (place : Place) :
    ∃ kind : TokenKind, kind.leaf? v = some .number ∧
      standard.tokenOf? TokenKind.all (v ++ rest) place = some ⟨kind, v, place⟩ := by
  obtain ⟨minus, d, z, hm, hd, hmz⟩ := hv
  obtain ⟨c, u, rfl⟩ : ∃ c u, v = c :: u :=
    List.exists_cons_of_ne_nil (hmz ▸ List.append_ne_nil_of_right_ne_nil _ (List.cons_ne_nil d z))
  -- no name starts with a minus or a digit, nor does anything in quotes
  have hc : c = '-' ∧ u = d :: z ∨ c = d := by
    rcases hm with rfl | rfl
    · exact .inr (List.cons.inj hmz).1
    · exact .inl (List.cons.inj hmz)
  have hnot : Text.isNameStart c = true → False := fun hs => by
    obtain ⟨hdigit, hminus, -⟩ := Text.isNameStart_ne hs
    rcases hc with ⟨rfl, -⟩ | rfl
    · exact hminus rfl
    · exact Bool.false_ne_true (hdigit.symm.trans hd)
  obtain ⟨k, hk⟩ := hfind
  refine standard_takes (P := fun kind => kind.leaf? (c :: u) = some .number)
    (exists_rule_of_lexeme? hk) (fun kind w r hfound heq => ?_) place
  cases hfound with
  | keyword k _ hs => exact (hnot hs).elim
  | symbol s hw hs =>
    rcases hc with ⟨rfl, rfl⟩ | rfl
    · -- only the minus itself: a longer symbol does not go on with a digit
      refine .inl ?_
      cases w with
      | nil => simp
      | cons e w =>
        obtain ⟨rfl, htail⟩ := List.cons.inj heq
        cases w with
        | nil => simp
        | cons e w =>
          obtain ⟨rfl, -⟩ := List.cons.inj htail
          have hjoint : isJoint d = true := isJoint_of_longer (s := .minus) (by decide) hw.symm
          exact absurd hjoint (by simp [isJoint_eq_false_of_isDigit hd])
    · rw [Text.isNameChar_of_isDigit hd] at hs
      cases hs
  | name _ hs => exact (hnot hs).elim
  | number hk h _ =>
    refine (hmax _ hk _ _ h).imp_right fun h => ⟨h, ?_⟩
    rcases hk with hk | hk
    · rw [hk]
      rfl
    · rw [hk]
      rfl
  | quoted _ hq =>
    rcases hc with ⟨rfl, -⟩ | rfl
    · rcases hq with h | h
      · cases h
      · cases h
    · rcases hq with rfl | rfl
      · exact absurd hd (by decide)
      · exact absurd hd (by decide)

/-- **Digits** that nothing makes longer. -/
theorem digits (hds : Text.Digits ds) (hr : Text.StartsOutside Text.extendsDigits rest)
    (hpoint : ∀ u, rest = '.' :: u → Text.StartsOutside Char.isDigit u)
    (h : Yields rest leaves) : Yields (ds ++ rest) (.number :: leaves) := by
  have hint := Text.integerLexeme?_signed (.inl rfl) hds hr.isDigit_of_extendsDigits
  obtain ⟨c, u, rfl⟩ := List.exists_cons_of_ne_nil hds.nonempty
  have hc := hds.all c List.mem_cons_self
  refine token (some .number) ⟨c, u, rfl, Text.isBlank_eq_false_of_isDigit hc⟩ ?_ h
  refine number_token ⟨[], c, u, .inl rfl, hc, rfl⟩ ⟨.decimalInteger, hint⟩ ?_
  exact fun k hk w r hlex => .inr (LexemeClass.eq_digits_of_lexeme? hk hds hr hpoint hlex)

/-- **A float** with digits on both sides of its point. -/
theorem float (hv : Text.FullFloat v) (hr : rest.Breaks) (h : Yields rest leaves) :
    Yields (v ++ rest) (.number :: leaves) := by
  obtain ⟨⟨k, -, hfind⟩, hmax⟩ := LexemeClass.float_munch hv hr
  obtain ⟨hw, -, -⟩ := hv
  obtain ⟨c, u, rfl⟩ := List.exists_cons_of_ne_nil hw.nonempty
  have hc := hw.all c List.mem_cons_self
  exact token (some .number) ⟨c, _, rfl, Text.isBlank_eq_false_of_isDigit hc⟩
    (number_token ⟨[], c, _, .inl rfl, hc, rfl⟩ ⟨k, hfind⟩ hmax) h

/-! ## Minus signs -/

/-- What is found at a digit is taken by a class of numbers. -/
theorem exists_class_of_found {w : Text} {kind : TokenKind} (hc : c.isDigit = true)
    (h : Found c u w kind) :
    ∃ k : LexemeClass, k.IsNumber ∧ ∃ rest, k.lexeme? (c :: u) = some (w, rest) := by
  have hnot : Text.isNameStart c = true → False := fun hs =>
    Bool.false_ne_true ((Text.isNameStart_ne hs).1.symm.trans hc)
  cases h with
  | keyword _ _ hs => exact (hnot hs).elim
  | symbol _ _ hs =>
    rw [Text.isNameChar_of_isDigit hc] at hs
    cases hs
  | name _ hs => exact (hnot hs).elim
  | number hk h _ => exact ⟨_, hk, _, h⟩
  | quoted _ hq =>
    rcases hq with rfl | rfl
    · exact absurd hc (by decide)
    · exact absurd hc (by decide)

/-- At a digit some class of numbers goes furthest. -/
theorem exists_number (hc : c.isDigit = true) (u : Text) :
    ∃ v rest, c :: u = c :: v ++ rest ∧
      (∃ k : LexemeClass, k.IsNumber ∧ k.lexeme? (c :: u) = some (c :: v, rest)) ∧
        ∀ k : LexemeClass, k.IsNumber → ∀ w r, k.lexeme? (c :: u) = some (w, r) →
          w.length < (c :: v).length ∨ w = c :: v := by
  obtain ⟨tok, htok⟩ := Option.isSome_iff_exists.mp (digit_isSome hc u .start)
  obtain ⟨s, hs, hs'⟩ := exists_rule_of_tokenOf? htok
  obtain ⟨-, -, hne, hfound⟩ := Rule.token?_eq_some hs'
  obtain ⟨k, hk, rest, hlex⟩ := exists_class_of_found hc (standard_found hs hne hfound)
  have heq := (LexemeClass.lexeme?_shape hlex).1
  obtain ⟨d, v, hdv⟩ := List.exists_cons_of_ne_nil hne
  rw [hdv] at heq hlex
  obtain rfl : c = d := (List.cons.inj heq).1
  refine ⟨v, rest, heq, ⟨k, hk, hlex⟩, fun k' _ w r hw => ?_⟩
  by_cases hw0 : w = []
  · exact .inl (by simp [hw0])
  · obtain ⟨s', hs', hfind⟩ := exists_rule_of_lexeme? hw
    have hle : w.length ≤ (c :: v).length := by
      rw [← hdv]
      exact length_le_of_tokenOf? htok hs' (TokenKind.mem_all _) (Rule.token?_of_find? hfind hw0)
    refine (lt_or_eq_of_le hle).imp_right fun hlen => ?_
    have happ := (LexemeClass.lexeme?_shape hw).1.symm.trans heq
    exact List.append_inj_left happ hlen

/-- **A minus yields nothing**, be it a symbol or part of the number behind
it. -/
theorem minus (hr : Text.StartsOutside isJoint t) (h : Yields t leaves) :
    Yields ('-' :: t) leaves := by
  by_cases hd : ∃ c u, t = c :: u ∧ c.isDigit = true
  · obtain ⟨c, u, rfl, hc⟩ := hd
    obtain ⟨v, rest, heq, ⟨k, hk, hlex⟩, hmax⟩ := exists_number hc u
    have hsigned : ∀ k : LexemeClass, k.IsNumber →
        k.lexeme? ('-' :: c :: v ++ rest) = Text.behind ['-'] (k.lexeme? (c :: v ++ rest)) :=
      fun k hk => LexemeClass.lexeme?_minus hk hc (v ++ rest)
    rw [heq] at hlex hmax h ⊢
    -- the same number is taken with the minus and without it
    have htok := number_token (v := c :: v) ⟨[], c, v, .inl rfl, hc, rfl⟩ ⟨k, hlex⟩ hmax
    have htok' : ∀ place, ∃ kind : TokenKind, kind.leaf? ('-' :: c :: v) = some .number ∧
        standard.tokenOf? TokenKind.all ('-' :: c :: v ++ rest) place =
          some ⟨kind, '-' :: c :: v, place⟩ := by
      refine number_token ⟨['-'], c, v, .inr rfl, hc, rfl⟩ ⟨k, ?_⟩ fun k hk w r hw => ?_
      · rw [hsigned k hk, hlex]
        rfl
      · rw [hsigned k hk] at hw
        obtain ⟨w', hw', rfl⟩ := Text.behind_eq_some hw
        refine (hmax k hk w' r hw').imp (fun hlt => ?_) fun heq => ?_
        · simpa using hlt
        · rw [heq]
          rfl
    intro before n hn
    obtain ⟨n, rfl⟩ : ∃ m, n = m + 1 := ⟨n - 1, by omega⟩
    obtain ⟨kind, hkind, hplain⟩ := htok (Place.start.after (before ++ ['-']))
    obtain ⟨kind', hkind', hminus⟩ := htok' (Place.start.after before)
    have hbefore : before ++ ['-'] ++ c :: v = before ++ '-' :: c :: v := by simp
    have hleaves := h (before ++ ['-']) (n + 1) (by simp at hn ⊢; omega)
    rw [Lexer.tokens_readUpTo_token standard_anchored
      ⟨c, v, rfl, Text.isBlank_eq_false_of_isDigit hc⟩ hplain, hbefore, Token.leaves_cons,
      Token.leaf?, hkind] at hleaves
    change Token.leaves ((Lexer.standing standard before ('-' :: c :: v ++ rest)).readUpTo
      (n + 1)).tokens = leaves
    rw [Lexer.tokens_readUpTo_token standard_anchored ⟨'-', c :: v, rfl, by decide⟩ hminus,
      Token.leaves_cons, Token.leaf?, hkind', ← hleaves]
  · refine symbol (s := .minus) (by decide) hr ?_ h
    have hm : Text.spanMinus ('-' :: t) = (['-'], t) := rfl
    rintro ⟨c, hc, hcd⟩
    rw [show Symbol.minus.spelling.toList ++ t = '-' :: t from rfl, hm] at hc
    obtain ⟨u, rfl⟩ := List.head?_eq_some_iff.mp hc
    exact hd ⟨c, u, rfl, hcd⟩

end Yields

end StraightLine
