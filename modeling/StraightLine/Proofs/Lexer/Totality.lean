import StraightLine.Proofs.Grammar.Brackets
import StraightLine.Proofs.Lexer.Layout

/-!
# Totality — texts that lex to the end

A run fails only where the lexicon finds nothing, or when it runs out of
rounds, and every token takes a character (`failure_eq_none`). The standard
lexicon finds something at every character of programs: a letter starts a
name, a digit an integer, and each of the others is a symbol on its own. So
every text of such characters has tokens, whatever they mean.
-/

namespace StraightLine

namespace Lexer

variable {x : Lexicon} {before ahead : Text} {n : Nat}

/-- **A run does not fail where the lexicon always finds something.** -/
theorem failure_eq_none (hx : x.Anchored)
    (hfind : ∀ c ∈ ahead, isBlank c = false →
      ∀ t place, (x.tokenOf? TokenKind.all (c :: t) place).isSome)
    (hn : ahead.length < n) : ((standing x before ahead).readUpTo n).failure = none := by
  induction n generalizing before ahead with
  | zero => omega
  | succ n ih =>
    rcases nextToken_cases hx before ahead with
      ⟨-, heq⟩ | ⟨b, t, rest, -, htok, rfl, heq⟩ | ⟨e, place, hne, hnone, -⟩
    · simp only [readUpTo, heq, Token.endOfInput, if_true]
    · have ht := (hx.tokenOf?_eq_some htok).1
      simp only [readUpTo, heq, if_neg (ht.kind_ne hx)]
      have hpos := List.length_pos_iff.mpr ht.value_ne_nil
      simp only [List.length_append] at hn
      refine ih (fun c hc => hfind c ?_) (by omega)
      exact List.mem_append_right b (List.mem_append_right t.value hc)
    · -- the first character behind the blanks is one of the text, and not blank
      obtain ⟨c, t, hct⟩ := List.exists_cons_of_ne_nil hne
      have hblank : isBlank c = false :=
        Text.startsOutside_dropWhile ahead c (by rw [← Text.trimStart, hct, List.head?_cons])
      have hmem : c ∈ ahead := by
        rw [← Text.takeWhile_append_trimStart ahead, hct]
        exact List.mem_append_right _ List.mem_cons_self
      have hsome := hfind c hmem hblank t place
      rw [← hct, hnone] at hsome
      cases hsome

end Lexer

namespace TokenKind

theorem keyword_mem_all (k : Keyword) : k ∈ Keyword.all := by cases k <;> decide

theorem symbol_mem_all (s : Symbol) : s ∈ Symbol.all := by cases s <;> decide

/-- Every kind is listed. -/
theorem mem_all (k : TokenKind) : k ∈ all := by
  cases k with
  | keyword word =>
    simp [all, keyword_mem_all word]
  | symbol sign =>
    simp [all, symbol_mem_all sign]
  | _ => simp [all]

end TokenKind

namespace Lexicon

variable {c : Char}

/-- The standard lexicon finds what one of its rules does. -/
theorem standard_isSome {r : Rule} (hr : r ∈ standard.rules) {ahead v : Text}
    (h : r.sought.find? ahead = some v) (hv : v ≠ []) (place : Place) :
    (standard.tokenOf? TokenKind.all ahead place).isSome :=
  tokenOf?_isSome hr (TokenKind.mem_all r.kind) (Rule.token?_of_find? h hv)

/-- A character that is a symbol is a token. -/
theorem symbol_isSome (s : Symbol) (hs : s.spelling.toList = [c]) (t : Text) (place : Place) :
    (standard.tokenOf? TokenKind.all (c :: t) place).isSome := by
  have hr : Rule.ofSpelling (.symbol s) s.spelling ∈ standard.rules :=
    List.mem_append_right _ (List.mem_map_of_mem (TokenKind.symbol_mem_all s))
  refine standard_isSome hr (v := [c]) ?_ (List.cons_ne_nil c []) place
  change (Text.after? s.spelling.toList (c :: t)).map _ = _
  rw [hs]
  have h := Text.after?_append [c] t
  rw [List.singleton_append] at h
  rw [h]
  rfl

/-- A letter or an underscore starts a name. -/
theorem name_isSome (hc : Text.isNameStart c = true) (t : Text) (place : Place) :
    (standard.tokenOf? TokenKind.all (c :: t) place).isSome := by
  have hr : Rule.ofClass .identifier .identifier ∈ standard.rules := by
    simp [standard]
  refine standard_isSome hr (v := c :: t.takeWhile Text.isNameChar) ?_ (List.cons_ne_nil c _) place
  simp [Rule.ofClass, Sought.find?, LexemeClass.lexeme?, Text.nameLexeme?, hc]

/-- A digit starts an integer. -/
theorem digit_isSome (hc : c.isDigit = true) (t : Text) (place : Place) :
    (standard.tokenOf? TokenKind.all (c :: t) place).isSome := by
  have hr : Rule.ofClass .integer .decimalInteger ∈ standard.rules := by
    simp [standard]
  refine standard_isSome hr (v := c :: t.takeWhile Char.isDigit) ?_ (List.cons_ne_nil c _) place
  have hminus : Text.spanMinus (c :: t) = ([], c :: t) := by
    unfold Text.spanMinus
    split
    · rename_i u heq
      obtain ⟨rfl, -⟩ := List.cons.inj heq
      exact absurd hc (by decide)
    · rfl
  simp [Rule.ofClass, Sought.find?, LexemeClass.lexeme?, Text.integerLexeme?, hminus,
    Text.spanDigits, hc]

/-- **The standard lexicon finds a token at every character of programs.** -/
theorem programChar_isSome (hc : Text.isProgramChar c = true) (hb : isBlank c = false)
    (t : Text) (place : Place) : (standard.tokenOf? TokenKind.all (c :: t) place).isSome := by
  simp only [Text.isProgramChar, Text.isPlainChar, hb, Bool.false_or, Bool.or_eq_true,
    beq_iff_eq, List.contains_iff_mem, List.mem_cons, List.not_mem_nil, or_false] at hc
  rcases hc with (((hc | rfl) | rfl) | rfl) | rfl | rfl | rfl | rfl | rfl | rfl | rfl
  · by_cases hd : c.isDigit = true
    · exact digit_isSome hd t place
    · refine name_isSome ?_ t place
      simpa [Text.isNameChar, Text.isNameStart, Char.isAlphanum, hd] using hc
  · exact symbol_isSome .dot rfl t place
  · exact symbol_isSome .minus rfl t place
  · exact symbol_isSome .plus rfl t place
  · exact symbol_isSome .star rfl t place
  · exact symbol_isSome .slash rfl t place
  · exact symbol_isSome .percent rfl t place
  · exact symbol_isSome .equal rfl t place
  · exact symbol_isSome .semicolon rfl t place
  · exact symbol_isSome .leftParen rfl t place
  · exact symbol_isSome .rightParen rfl t place

end Lexicon

/-- **Every text of such characters has tokens.** -/
theorem exists_tokens {s : Text} (h : s.ProgramChars) :
    ∃ ts, tokenize s = .ok ts := by
  refine ⟨_, Lexer.tokenize_eq_ok_iff.mpr ⟨?_, rfl⟩⟩
  refine Lexer.failure_eq_none Lexicon.standard_anchored (fun c hc hb => ?_) (Nat.lt_succ_self _)
  exact Lexicon.programChar_isSome (h c hc) hb

end StraightLine
