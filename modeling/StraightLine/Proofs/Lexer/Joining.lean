import StraightLine.Proofs.Grammar.Placement
import StraightLine.Proofs.Grammar.Refusal
import StraightLine.Proofs.Lexer.MaximalMunch
import StraightLine.Proofs.Lexer.Selection

/-!
# Joining — texts on lines of their own

Only a quoted token can hold a line feed, and it ends with its closing quote. So
the longest token in front of a text stays the longest when a line feed and
anything else is put behind the text (`IsLongest.append_line`). `Lexes` says
which tokens a lexicon takes from a text, one after the other, and is what a run
that does not fail comes to (`tokenize_eq_ok_iff_lexes`). It does not depend on
where the text stands but for the places, which a line feed in front moves down
and not to the side (`after_lines`): **`tokenize_joined`**.
-/

namespace StraightLine

/-! ## Longest tokens in front of a line feed -/

theorem Symbol.newline_not_mem (s : Symbol) : '\n' ∉ s.spelling.toList := by
  cases s <;> decide

namespace Text

variable {t u v w : Text}

/-- A text that can be a token consists of the characters of numbers and names,
is a symbol, or is quoted. -/
theorem Lexical.cases (h : Lexical v) :
    PlainChars v ∨ (∃ s : Symbol, v = s.spelling.toList) ∨ StringLexeme v ∨ CharLexeme v := by
  obtain ⟨-, kind, hclass⟩ := h
  cases hclass with
  | keyword k => exact .inl k.nameLexeme.plainChars
  | member hmember => exact hmember.plain_or_quoted.imp_right .inr
  | symbol s => exact .inr (.inl ⟨s, rfl⟩)

theorem StringLexeme.head?_eq (h : StringLexeme v) : v.head? = some '"' := by
  cases h
  rfl

theorem CharLexeme.head?_eq (h : CharLexeme v) : v.head? = some '\'' := by
  cases h
  rfl

/-- With a line feed in it, it is quoted. -/
theorem Lexical.quoted_of_mem (h : Lexical v) (hline : '\n' ∈ v) :
    StringLexeme v ∨ CharLexeme v := by
  rcases h.cases with hplain | ⟨s, rfl⟩ | hquoted
  · exact absurd hline (hplain.not_mem (by decide))
  · exact absurd hline s.newline_not_mem
  · exact hquoted

/-- So it is when it starts with a quote. -/
theorem Lexical.quoted_of_head? (h : Lexical v)
    (hquote : v.head? = some '"' ∨ v.head? = some '\'') : StringLexeme v ∨ CharLexeme v := by
  rcases h.cases with hplain | ⟨s, rfl⟩ | hquoted
  · obtain ⟨c, v, rfl⟩ := List.exists_cons_of_ne_nil h.1
    have hc := hplain c List.mem_cons_self
    rcases hquote with hc' | hc'
    · rw [Option.some.inj hc'] at hc
      exact absurd hc (by decide)
    · rw [Option.some.inj hc'] at hc
      exact absurd hc (by decide)
  · obtain ⟨c, u, hs, -, -, hdouble, hsingle⟩ := s.exists_head
    rw [hs, List.head?_cons] at hquote
    rcases hquote with hc | hc
    · exact absurd (Option.some.inj hc) hdouble
    · exact absurd (Option.some.inj hc) hsingle
  · exact hquoted

/-- **A quoted text ends with its quote**: what can be a token and starts it is
all of it. -/
theorem Lexical.eq_of_quoted (hv : Lexical v) (hw : StringLexeme w ∨ CharLexeme w)
    (hvw : v <+: w) : v = w := by
  have hhead : w.head? = v.head? := by
    obtain ⟨u, rfl⟩ := hvw
    obtain ⟨c, v, rfl⟩ := List.exists_cons_of_ne_nil hv.1
    rfl
  have hquote : v.head? = some '"' ∨ v.head? = some '\'' := by
    rw [← hhead]
    exact hw.imp StringLexeme.head?_eq CharLexeme.head?_eq
  obtain ⟨u, rfl⟩ := hvw
  rcases hv.quoted_of_head? hquote with hv | hv
  · rcases hw with hw | hw
    · -- the reader of strings takes both
      have hread := stringLexeme?_member hw []
      rw [List.append_nil, stringLexeme?_member hv u] at hread
      exact (Prod.mk.inj (Option.some.inj hread)).1
    · rw [hv.head?_eq, hw.head?_eq] at hhead
      exact absurd (Option.some.inj hhead) (by decide)
  · rcases hw with hw | hw
    · rw [hv.head?_eq, hw.head?_eq] at hhead
      exact absurd (Option.some.inj hhead) (by decide)
    · have hread := charLexeme?_member hw []
      rw [List.append_nil, charLexeme?_member hv u] at hread
      exact (Prod.mk.inj (Option.some.inj hread)).1

/-- **A line feed behind a text** and whatever follows it make no token in front
of the text longer. -/
theorem IsLongest.append_line (h : t.IsLongest Lexical v) (u : Text) :
    (t ++ '\n' :: u).IsLongest Lexical v where
  holds := h.holds
  ahead := h.ahead.trans (List.prefix_append t _)
  longest w hw hahead := by
    obtain ⟨rest, hrest⟩ := hahead
    rcases append_eq_append_cons hrest with ⟨a, rfl, -⟩ | ⟨a, rfl, -⟩
    · exact h.longest w hw (List.prefix_append w a)
    · -- it goes on behind the line feed, so it is quoted, and starts as `v` does
      have hquoted := hw.quoted_of_mem (List.mem_append_right t List.mem_cons_self)
      have hvw : v <+: t ++ '\n' :: a := h.ahead.trans (List.prefix_append t _)
      rw [h.holds.eq_of_quoted hquoted hvw]

end Text

/-! ## The token taken, told apart from its place -/

/-- Only one kind comes first. -/
theorem TokenKind.First.unique {kind kind' : TokenKind} {v : Text} (h : kind.First v)
    (h' : kind'.First v) : kind = kind' := by
  obtain ⟨hclass, before, after, hall, hbefore⟩ := h
  obtain ⟨hclass', before', after', hall', hbefore'⟩ := h'
  exact (Lexicon.eq_of_first (hall.symm.trans hall') (fun hmem => hbefore' kind hmem hclass)
    fun hmem => hbefore kind' hmem hclass').2

namespace Lexicon

variable {t : Text} {place : Place} {tok : Token}

/-- **The token that is taken** is told by its text and its kind. -/
theorem tokenOf?_eq_some_iff_longest :
    standard.tokenOf? TokenKind.all t place = some tok ↔
      t.IsLongest Text.Lexical tok.value ∧ tok.kind.First tok.value ∧ tok.place = place := by
  refine ⟨isLongest_of_tokenOf?, ?_⟩
  rintro ⟨hlongest, hfirst, rfl⟩
  rcases htok : standard.tokenOf? TokenKind.all t tok.place with - | tok'
  · exact absurd hlongest.holds (tokenOf?_eq_none_iff.mp htok _ hlongest.ahead)
  · obtain ⟨hlongest', hfirst', hplace⟩ := isLongest_of_tokenOf? htok
    obtain ⟨kind, value, p⟩ := tok
    obtain ⟨kind', value', p'⟩ := tok'
    obtain rfl : value = value' := hlongest.unique hlongest'
    obtain rfl : kind = kind' := hfirst.unique hfirst'
    obtain rfl : p' = p := hplace
    rfl

/-- A line feed behind the text changes nothing. -/
theorem tokenOf?_append_line (h : standard.tokenOf? TokenKind.all t place = some tok) (u : Text) :
    standard.tokenOf? TokenKind.all (t ++ '\n' :: u) place = some tok := by
  obtain ⟨hlongest, hfirst, hplace⟩ := tokenOf?_eq_some_iff_longest.mp h
  exact tokenOf?_eq_some_iff_longest.mpr ⟨hlongest.append_line u, hfirst, hplace⟩

/-- Nor does another place, but for itself. -/
theorem tokenOf?_place (h : standard.tokenOf? TokenKind.all t place = some tok) (p : Place) :
    standard.tokenOf? TokenKind.all t p = some { tok with place := p } := by
  obtain ⟨hlongest, hfirst, -⟩ := tokenOf?_eq_some_iff_longest.mp h
  exact tokenOf?_eq_some_iff_longest.mpr ⟨hlongest, hfirst, rfl⟩

end Lexicon

/-! ## Lines below -/

/-- The place that many lines below, in the same column. -/
def Place.down (n : Nat) (p : Place) : Place := ⟨p.line + n, p.column⟩

/-- A token that many lines below. -/
def Token.down (n : Nat) (t : Token) : Token := { t with place := t.place.down n }

namespace Place

/-- Characters lead from a place further down to one as far down. -/
theorem after_down (n : Nat) (p : Place) (t : Text) : (p.down n).after t = (p.after t).down n := by
  induction t generalizing p with
  | nil => rfl
  | cons c t ih =>
    have hnext : (p.down n).next c = (p.next c).down n := by
      unfold next
      split
      · exact congrArg (Place.mk · 1) (Nat.add_right_comm p.line n 1)
      · rfl
    rw [after_cons, after_cons, hnext, ih]

/-- **Behind a line feed** all places are those from the start of a text, further
down by the line feeds in front of them. -/
theorem after_lines (s t : Text) :
    start.after (s ++ '\n' :: t) = (start.after t).down (1 + s.count '\n') := by
  have hline : start.after (s ++ ['\n']) = start.down (1 + s.count '\n') := by
    rw [after_eq, Text.lastLine_append_line, List.count_append, List.count_singleton_self,
      Nat.add_comm (s.count '\n')]
    rfl
  rw [List.append_cons, after_append, hline, after_down]

end Place

/-! ## The tokens a lexicon takes -/

/-- **The tokens that a lexicon takes** from a text behind another one: blanks
and the token taken behind them, time and again, and the end of input. -/
inductive Lexicon.Lexes (x : Lexicon) : Text → Text → List Token → Prop
  | done {before b : Text} (hb : b.Blank) :
      x.Lexes before b [.endOfInput (Place.start.after (before ++ b))]
  | token {before b ahead : Text} {t : Token} {ts : List Token} (hb : b.Blank)
      (ht : x.tokenOf? TokenKind.all (t.value ++ ahead) (Place.start.after (before ++ b)) = some t)
      (rest : x.Lexes (before ++ b ++ t.value) ahead ts) :
      x.Lexes before (b ++ (t.value ++ ahead)) (t :: ts)

variable {x : Lexicon} {before b ahead s t : Text} {ts us : List Token} {n : Nat}

namespace Lexer

/-- A run that does not fail takes these tokens. -/
theorem readUpTo_lexes (hx : x.Anchored)
    (h : ((standing x before ahead).readUpTo n).failure = none) :
    x.Lexes before ahead ((standing x before ahead).readUpTo n).tokens := by
  induction n generalizing before ahead with
  | zero => cases h
  | succ n ih =>
    rcases nextToken_cases hx before ahead with
      ⟨hb, heq⟩ | ⟨b, t, rest, hb, htok, rfl, heq⟩ | ⟨e, place, -, -, heq⟩
    · simp only [readUpTo, heq, Token.endOfInput, if_true]
      exact .done hb
    · have hkind := (hx.tokenOf?_eq_some htok).1.kind_ne hx
      simp only [readUpTo, heq, if_neg hkind] at h ⊢
      exact .token hb htok (ih h)
    · simp only [readUpTo, heq] at h
      cases h

end Lexer

namespace Lexicon.Lexes

/-- **A run takes them**, and does not fail. -/
theorem readUpTo (h : standard.Lexes before ahead ts) (hn : ahead.length < n) :
    ((Lexer.standing standard before ahead).readUpTo n).failure = none ∧
      ((Lexer.standing standard before ahead).readUpTo n).tokens = ts := by
  induction h generalizing n with
  | @done before b hb =>
    obtain ⟨n, rfl⟩ := Nat.exists_eq_succ_of_ne_zero (show n ≠ 0 by omega)
    simp only [Lexer.readUpTo, Lexer.nextToken, Lexer.expectOf,
      Lexer.nextOf_of_blank standard before _ hb, Token.endOfInput, if_true, and_self]
  | @token before b ahead tok ts hb htok rest ih =>
    obtain ⟨n, rfl⟩ := Nat.exists_eq_succ_of_ne_zero (show n ≠ 0 by omega)
    have hproduces := (standard_anchored.tokenOf?_eq_some htok).1
    have hnext := Lexer.nextToken_of_tokenOf? hb
      (hproduces.startsOutside_isBlank ahead) (by simp [hproduces.value_ne_nil]) htok
    have hpos := List.length_pos_iff.mpr hproduces.value_ne_nil
    rw [List.length_append, List.length_append] at hn
    obtain ⟨hfailure, htokens⟩ := ih (n := n) (by omega)
    simp only [Lexer.readUpTo, hnext, if_neg (hproduces.kind_ne standard_anchored), hfailure,
      htokens, and_self]

/-- Blanks in front change nothing. -/
theorem blank_append (hb : b.Blank) (h : x.Lexes (before ++ b) ahead ts) :
    x.Lexes before (b ++ ahead) ts := by
  cases h with
  | @done _ b' hb' =>
    rw [List.append_assoc]
    exact .done (hb.append hb')
  | @token _ b' ahead tok ts hb' htok rest =>
    rw [List.append_assoc before b b'] at htok rest
    rw [← List.append_assoc b]
    exact .token (hb.append hb') htok rest

/-- **Lower down** the same tokens are taken, as far down. -/
theorem down {before' : Text} (h : standard.Lexes before ahead ts)
    (hdown : ∀ w, Place.start.after (before' ++ w) = (Place.start.after (before ++ w)).down n) :
    standard.Lexes before' ahead (ts.map (Token.down n)) := by
  induction h generalizing before' with
  | @done before b hb =>
    have hdone : standard.Lexes before' b _ := .done hb
    rwa [hdown] at hdone
  | @token before b ahead tok ts hb htok rest ih =>
    have hplace := (standard_anchored.tokenOf?_eq_some htok).2.1
    refine .token (t := tok.down n) hb ?_ (ih fun w => ?_)
    · rw [hdown, ← hplace]
      exact tokenOf?_place htok _
    · have hw := hdown (b ++ (tok.value ++ w))
      simp only [List.append_assoc] at hw ⊢
      exact hw

/-- **The tokens of a text go on behind a line feed** with those of the text
behind it, in place of the end of input. -/
theorem exists_joined (h : standard.Lexes before s ts) :
    ∃ front place, ts = front ++ [.endOfInput place] ∧ (∀ t ∈ front, t.kind ≠ .endOfInput) ∧
      ∀ t us, standard.Lexes (before ++ s ++ ['\n']) t us →
        standard.Lexes before (s ++ '\n' :: t) (front ++ us) := by
  induction h with
  | @done before b hb =>
    refine ⟨[], _, rfl, by simp, fun t us ht => ?_⟩
    have hline : Text.Blank ['\n'] := by simp [Text.Blank, isBlank]
    rw [List.append_assoc] at ht
    rw [List.append_cons]
    exact ht.blank_append (hb.append hline)
  | @token before b ahead tok ts hb htok rest ih =>
    obtain ⟨front, place, rfl, hfront, hjoined⟩ := ih
    have hkind := (standard_anchored.tokenOf?_eq_some htok).1.kind_ne standard_anchored
    refine ⟨tok :: front, place, rfl, List.forall_mem_cons.mpr ⟨hkind, hfront⟩, fun t us ht => ?_⟩
    have hrest := hjoined t us (by simpa only [List.append_assoc] using ht)
    have hline := tokenOf?_append_line htok t
    rw [List.append_assoc] at hline
    rw [List.append_assoc, List.append_assoc]
    exact .token hb hline hrest

end Lexicon.Lexes

/-- **The tokens of a text** are those that the standard lexicon takes from
it. -/
theorem tokenize_eq_ok_iff_lexes : tokenize s = .ok ts ↔ Lexicon.standard.Lexes [] s ts := by
  rw [Lexer.tokenize_eq_ok_iff]
  constructor
  · rintro ⟨hfailure, rfl⟩
    exact Lexer.readUpTo_lexes Lexicon.standard_anchored hfailure
  · intro h
    exact h.readUpTo (Nat.lt_succ_self s.length)

/-- **Lexing is local to lines.** Two texts that have tokens have them on lines
of their own too: the joined text has the tokens of the first without the end of
input, and then those of the second in the same columns, further down by the
line feed between them and those of the first. -/
theorem tokenize_joined (hs : tokenize s = .ok ts) (ht : tokenize t = .ok us) :
    ∃ front place, ts = front ++ [.endOfInput place] ∧
      (∀ tok ∈ front, tok.kind ≠ .endOfInput) ∧
      tokenize (s ++ '\n' :: t) = .ok (front ++ us.map (Token.down (1 + s.count '\n'))) := by
  obtain ⟨front, place, hts, hfront, hjoined⟩ := (tokenize_eq_ok_iff_lexes.mp hs).exists_joined
  refine ⟨front, place, hts, hfront, tokenize_eq_ok_iff_lexes.mpr (hjoined t _ ?_)⟩
  refine (tokenize_eq_ok_iff_lexes.mp ht).down fun w => ?_
  rw [List.nil_append, List.nil_append, List.append_assoc, List.singleton_append]
  exact Place.after_lines s w

/-- A string over two lines and an operator, with a number and an exponent that
they could go on in. -/
theorem tokenize_joined_string :
    ∃ front place, tokenize "\"a\n\" 1.5 -".toList = .ok (front ++ [.endOfInput place]) ∧
      (∀ tok ∈ front, tok.kind ≠ .endOfInput) ∧
      tokenize "\"a\n\" 1.5 -\n>e2".toList = .ok (front ++
        [⟨.symbol .greater, ['>'], ⟨3, 1⟩⟩, ⟨.identifier, ['e', '2'], ⟨3, 2⟩⟩,
          .endOfInput ⟨3, 4⟩]) := by
  have hs : tokenize "\"a\n\" 1.5 -".toList = .ok [⟨.string, "\"a\n\"".toList, ⟨1, 1⟩⟩,
      ⟨.float, "1.5".toList, ⟨2, 3⟩⟩, ⟨.symbol .minus, ['-'], ⟨2, 7⟩⟩, .endOfInput ⟨2, 8⟩] := by
    decide +kernel
  have ht : tokenize ">e2".toList = .ok [⟨.symbol .greater, ['>'], ⟨1, 1⟩⟩,
      ⟨.identifier, ['e', '2'], ⟨1, 2⟩⟩, .endOfInput ⟨1, 4⟩] := by decide +kernel
  obtain ⟨front, place, heq, hfront, hjoined⟩ := tokenize_joined hs ht
  exact ⟨front, place, heq ▸ hs, hfront, hjoined⟩

end StraightLine
