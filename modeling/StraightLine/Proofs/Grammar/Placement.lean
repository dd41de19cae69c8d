import StraightLine.Proofs.Grammar.Failure
import StraightLine.Proofs.Lexer.Longest

/-!
# Placement — where refused statements stand among the tokens

Statements and tokens cut a text at different places, and of a text that is
refused the last part can hold anything. What the two have in common is the
semicolon: it ends every statement, and outside quotes it is always a token on
its own, so the tokens can be cut behind it (`exists_semicolon`). No quote
stands in the statements in front of a refused one, hence the refused one
starts where a token does (`refused_at_token`), although the lexer counts lines
as it goes and the error counts them from the start of the text.
-/

namespace StraightLine

namespace Text

variable {s t u r : Text} {c : Char}

/-- A character with something on both sides belongs to one of two texts. -/
theorem append_eq_append_cons (h : s ++ t = u ++ c :: r) :
    (∃ a, u = s ++ a ∧ t = a ++ c :: r) ∨ ∃ a, s = u ++ c :: a ∧ r = a ++ t := by
  rcases List.append_eq_append_iff.mp h with hfirst | ⟨- | ⟨d, a⟩, hs, ht⟩
  · exact .inl hfirst
  · exact .inl ⟨[], by simpa using hs.symm, ht.symm⟩
  · obtain ⟨rfl, hr⟩ := List.cons.inj ht
    exact .inr ⟨a, hs, hr⟩

theorem isBlank_eq_false_of_isPlainChar (h : isPlainChar c = true) : isBlank c = false := by
  simp only [isPlainChar, Bool.or_eq_true, beq_iff_eq] at h
  rcases h with ((h | rfl) | rfl) | rfl
  · exact isBlank_eq_false_of_isNameChar h
  · decide
  · decide
  · decide

end Text

/-! ## Tokens of the language -/

theorem Symbol.eq_semicolon (s : Symbol) (h : ';' ∈ s.spelling.toList) : s = .semicolon := by
  revert h
  cases s <;> decide

variable {before ahead w r front rest s : Text} {t : Token} {ts : List Token} {e : ParseError}

namespace Lexicon

/-- **What tokens of the language look like**: they are symbols, start with a
quote, or consist of the characters of numbers and names. -/
theorem Produces.value_cases (h : standard.Produces t) :
    t.value.PlainChars ∨
      (∃ s : Symbol, t.kind = .symbol s ∧ t.value = s.spelling.toList) ∨
      t.value.head? = some '"' ∨ t.value.head? = some '\'' := by
  rcases h.standard_cases with ⟨k, -, hk⟩ | hsymbol | ⟨hshape, -⟩
  · exact .inl (hk ▸ k.nameLexeme.plainChars)
  · exact .inr (.inl hsymbol)
  · exact hshape.imp_right .inr

/-- So they start with no blank. -/
theorem Produces.startsOutside_isBlank (h : standard.Produces t) (r : Text) :
    Text.StartsOutside isBlank (t.value ++ r) := by
  obtain ⟨c, v, hv⟩ := List.exists_cons_of_ne_nil h.value_ne_nil
  have hmem : c ∈ t.value := hv ▸ List.mem_cons_self
  have hhead : t.value.head? = some c := by rw [hv, List.head?_cons]
  rw [hv, List.cons_append]
  refine Text.startsOutside_cons ?_
  rcases h.value_cases with hplain | ⟨s, -, hs⟩ | hq | hq
  · exact Text.isBlank_eq_false_of_isPlainChar (hplain c hmem)
  · obtain ⟨d, u, hd, -, hblank, -⟩ := s.exists_head
    obtain rfl : d = c := (List.cons.inj (hd.symm.trans (hs.symm.trans hv))).1
    exact hblank
  · obtain rfl : c = '"' := Option.some.inj (hhead.symm.trans hq)
    decide
  · obtain rfl : c = '\'' := Option.some.inj (hhead.symm.trans hq)
    decide

/-- **A semicolon outside quotes is a token on its own**: nothing stands in front
of it in its token, and nothing behind it. -/
theorem Produces.eq_semicolon {a : Text} (h : standard.Produces t) (hv : t.value = w ++ ';' :: a)
    (hw : w.ProgramChars) : t.kind = .symbol .semicolon ∧ w = [] ∧ a = [] := by
  have hmem : ';' ∈ t.value := hv ▸ List.mem_append_right w List.mem_cons_self
  have hhead (c : Char) (hc : t.value.head? = some c) : Text.isProgramChar c = true := by
    rw [hv] at hc
    cases w with
    | nil =>
      obtain rfl := Option.some.inj hc
      decide
    | cons d w => exact hw c (Option.some.inj hc ▸ List.mem_cons_self)
  rcases h.value_cases with hplain | ⟨s, hkind, hs⟩ | hq | hq
  · exact absurd hmem (hplain.not_mem (by decide))
  · obtain rfl := s.eq_semicolon (hs ▸ hmem)
    have hlength := congrArg List.length (hs.symm.trans hv)
    rw [List.length_append, List.length_cons, show List.length _ = 1 from rfl] at hlength
    exact ⟨hkind, List.length_eq_zero_iff.mp (by omega), List.length_eq_zero_iff.mp (by omega)⟩
  · exact absurd (hhead _ hq) (by decide)
  · exact absurd (hhead _ hq) (by decide)

namespace Layout

/-- Behind blanks the first token stands where they end. -/
theorem exists_cons (h : standard.Layout before (front ++ rest) ts) (hb : front.Blank)
    (hstart : ∃ c u, rest = c :: u ∧ isBlank c = false) :
    ∃ t ts', ts = t :: ts' ∧ t.kind ≠ .endOfInput ∧
      t.place = Place.start.after (before ++ front) := by
  obtain ⟨c, u, rfl, hc⟩ := hstart
  generalize htext : front ++ c :: u = text at h
  cases h with
  | done hblank =>
    have hmem : c ∈ text := htext ▸ List.mem_append_right front List.mem_cons_self
    exact absurd (hblank c hmem) (by simp [hc])
  | token hblank ht hplace hrest =>
    refine ⟨_, _, rfl, ht.kind_ne standard_anchored, ?_⟩
    have hfront := Text.takeWhile_append hb (Text.startsOutside_cons (t := u) hc)
    rw [htext, Text.takeWhile_append hblank (ht.startsOutside_isBlank _)] at hfront
    rw [hplace, hfront]

/-- **The tokens of a text can be cut behind a semicolon** with no quotes in
front of it. -/
theorem exists_semicolon (h : standard.Layout before ahead ts) (ha : ahead = w ++ ';' :: r)
    (hw : w.ProgramChars) :
    ∃ front t back, ts = front ++ t :: back ∧ t.kind = .symbol .semicolon ∧
      standard.Layout (before ++ (w ++ [';'])) r back := by
  induction h generalizing w with
  | done hb =>
    have hmem : ';' ∈ w ++ ';' :: r := List.mem_append_right w List.mem_cons_self
    exact absurd (hb ';' (ha ▸ hmem)) (by decide)
  | @token before b ahead t ts hb ht hplace hrest ih =>
    rcases Text.append_eq_append_cons ha with ⟨w', rfl, ha'⟩ | ⟨a, rfl, -⟩
    · have hw' : w'.ProgramChars := fun c hc => hw c (List.mem_append_right b hc)
      rcases Text.append_eq_append_cons ha' with ⟨w'', rfl, hahead⟩ | ⟨a, hvalue, rfl⟩
      · -- the token stands in front of the semicolon
        obtain ⟨front, u, back, rfl, hu, hback⟩ :=
          ih hahead fun c hc => hw' c (List.mem_append_right _ hc)
        refine ⟨t :: front, u, back, rfl, hu, ?_⟩
        simpa only [List.append_assoc] using hback
      · -- the token holds the semicolon
        obtain ⟨hkind, rfl, rfl⟩ := ht.eq_semicolon hvalue hw'
        rw [List.nil_append] at hvalue
        rw [hvalue] at hrest
        refine ⟨[], t, ts, rfl, hkind, ?_⟩
        simpa only [List.append_nil, List.append_assoc, List.nil_append] using hrest
    · exact absurd (hb ';' (List.mem_append_right w List.mem_cons_self)) (by decide)

end Layout

end Lexicon

/-! ## Refused statements -/

namespace Grammar

variable {n : Nat} {sts : List Stmt}

theorem DerivesStmt.exists_semicolon {st : Stmt} (h : DerivesStmt n s st) :
    ∃ w b : Text, s = w ++ ';' :: b ∧ b.Blank := by
  obtain @⟨x, s₁, s₂, s₃, s₄, op, e, hx, hs₁, hs₂, he, hs₄⟩ := h
  obtain @⟨b, b', hb, hb'⟩ := hs₄
  exact ⟨s₁ ++ (s₂ ++ (s₃ ++ b)), b', by simp, hb'⟩

/-- **A program ends in a semicolon**, unless it has no statement at all. -/
theorem DerivesProgram.blank_or_exists_semicolon (h : DerivesProgram n s sts) :
    s.Blank ∨ ∃ w b : Text, s = w ++ ';' :: b ∧ b.Blank := by
  induction h with
  | done hs => exact .inl hs
  | @step s t st sts hst hsts ih =>
    refine .inr ?_
    rcases ih with ht | ⟨w, b, rfl, hb⟩
    · obtain ⟨w, b, rfl, hb⟩ := hst.exists_semicolon
      exact ⟨w, b ++ t, by simp, hb.append ht⟩
    · exact ⟨s ++ w, b, by simp, hb⟩

/-- **A refusal points at a token.** Where a text has tokens and is refused as a
program, the line and column of the refusal are those of a token that is not
the end of input, and the token in front of it, if any, is a semicolon. -/
theorem refused_at_token (hlex : tokenize s = .ok ts) (hparse : parseProgram s = .error e) :
    ∃ place found cause, e = .invalidStatement place found cause ∧
      ∃ before t after, ts = before ++ t :: after ∧ t.kind ≠ .endOfInput ∧ t.place = place ∧
        ∀ u ∈ before.getLast?, u.kind = .symbol .semicolon := by
  obtain ⟨front, rest, cause, hfails⟩ := exists_failsAt hparse
  obtain rfl := Except.error.inj (hparse.symm.trans hfails.parseProgram_eq)
  obtain ⟨rfl, ⟨p, hp⟩, hstart, -⟩ := hfails
  obtain ⟨hd, -⟩ := parseProgram_eq_ok_iff.mp hp
  have hlayout := Lexer.layout_of_tokenize hlex
  refine ⟨_, _, _, rfl, ?_⟩
  rw [Text.placeAt_append]
  rcases hd.blank_or_exists_semicolon with hb | ⟨w, b, rfl, hb⟩
  · -- the first statement is refused, and the first token starts it
    obtain ⟨t, after, rfl, hkind, hplace⟩ := hlayout.exists_cons hb hstart
    exact ⟨[], t, after, rfl, hkind, hplace, by simp⟩
  · -- the tokens are cut behind the last semicolon that was accepted
    have hw : w.ProgramChars := fun c hc => hd.wellBracketed.chars c (List.mem_append_left _ hc)
    rw [List.append_assoc, List.cons_append] at hlayout
    obtain ⟨tokens, u, back, rfl, hu, hback⟩ := hlayout.exists_semicolon rfl hw
    obtain ⟨t, after, rfl, hkind, hplace⟩ := hback.exists_cons hb hstart
    refine ⟨tokens ++ [u], t, after, by simp, hkind, ?_, ?_⟩
    · simpa using hplace
    · simpa using hu

/-- A string with a semicolon in it, where a statement should start on the
second line. -/
theorem refused_at_token_string :
    let ts : List Token :=
      [⟨.identifier, ['a'], ⟨1, 1⟩⟩, ⟨.symbol .equal, ['='], ⟨1, 2⟩⟩, ⟨.integer, ['1'], ⟨1, 3⟩⟩,
        ⟨.symbol .semicolon, [';'], ⟨1, 4⟩⟩, ⟨.string, "\"x;\"".toList, ⟨2, 2⟩⟩,
        ⟨.identifier, ['b'], ⟨2, 7⟩⟩, .endOfInput ⟨2, 8⟩]
    let e := ParseError.invalidStatement ⟨2, 2⟩ "\"x;\" b".toList
      (.rejected "Invalid identifier".toList)
    tokenize "a=1;\n \"x;\" b".toList = .ok ts ∧
      parseProgram "a=1;\n \"x;\" b".toList = .error e ∧
      ∃ place found cause, e = .invalidStatement place found cause ∧
        ∃ before t after, ts = before ++ t :: after ∧ t.kind ≠ .endOfInput ∧ t.place = place ∧
          ∀ u ∈ before.getLast?, u.kind = .symbol .semicolon := by
  intro ts e
  have hlex : tokenize "a=1;\n \"x;\" b".toList = .ok ts := by decide +kernel
  have hparse : parseProgram "a=1;\n \"x;\" b".toList = .error e := by decide +kernel
  exact ⟨hlex, hparse, refused_at_token hlex hparse⟩

end Grammar

end StraightLine
