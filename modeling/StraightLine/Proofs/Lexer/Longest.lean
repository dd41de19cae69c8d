import StraightLine.Proofs.Lexeme.Munch
import StraightLine.Proofs.Lexer.Choice
import StraightLine.Proofs.Lexer.Totality

/-!
# Longest tokens — which token the standard lexicon takes

A lexicon takes a token that is at least as long as everything its rules find
(`length_le_of_tokenOf?`). So a text that some rule finds, and that every rule
finds at most as far, is the token that is taken, whatever follows it
(`standard_takes`); only its kind is left to the rules that find just this
text. What they can find at all is told by the first character
(`standard_found`).
-/

namespace StraightLine

/-! ## What is found -/

/-- Keywords are names. -/
theorem Keyword.nameLexeme (k : Keyword) : Text.NameLexeme k.spelling.toList := by
  cases k
  all_goals exact .mk (by decide) (List.all_eq_true.mp (by decide))

/-- Symbols start like no name and nothing in quotes. -/
theorem Symbol.exists_head (s : Symbol) : ∃ c u, s.spelling.toList = c :: u ∧
    Text.isNameChar c = false ∧ isBlank c = false ∧ c ≠ '"' ∧ c ≠ '\'' := by
  cases s
  all_goals exact ⟨_, _, rfl, by decide, by decide, by decide, by decide⟩

namespace Lexicon

variable {c : Char} {u w rest : Text} {r : Rule}

/-- **What the rules of the language find** in a text, by its first
character, next to their kinds. -/
inductive Found (c : Char) (u w : Text) : TokenKind → Prop
  | keyword (k : Keyword) (hw : w = k.spelling.toList) (hc : Text.isNameStart c = true) :
      Found c u w (.keyword k)
  | symbol (s : Symbol) (hw : w = s.spelling.toList) (hc : Text.isNameChar c = false) :
      Found c u w (.symbol s)
  | name {rest : Text} (h : Text.nameLexeme? (c :: u) = some (w, rest))
      (hc : Text.isNameStart c = true) : Found c u w .identifier
  | number {k : LexemeClass} {rest : Text} (hk : k.IsNumber)
      (h : k.lexeme? (c :: u) = some (w, rest)) (hn : Text.StartsNumber (c :: u)) :
      Found c u w k.kind
  | quoted (kind : TokenKind) (hc : c = '"' ∨ c = '\'') : Found c u w kind

/-- What a class finds. -/
theorem found_of_lexeme? {k : LexemeClass} {rest : Text} (h : k.lexeme? (c :: u) = some (w, rest))
    (hne : w ≠ []) : Found c u w k.kind := by
  -- the lexeme starts with the first character of the text
  have hhead : w.head? = some c := by
    obtain ⟨d, w, rfl⟩ := List.exists_cons_of_ne_nil hne
    obtain ⟨rfl, -⟩ := List.cons.inj (LexemeClass.lexeme?_shape h).1
    rfl
  rcases LexemeClass.lexeme?_cases h with ⟨rfl, hl⟩ | ⟨hk, hn⟩ | hq | hq
  · obtain ⟨hc, -⟩ := hl
    obtain rfl := Option.some.inj hhead
    exact .name h hc
  · exact .number hk h hn
  · exact .quoted _ (.inl (Option.some.inj (hhead.symm.trans hq)))
  · exact .quoted _ (.inr (Option.some.inj (hhead.symm.trans hq)))

/-- **A rule of the language** belongs to a keyword, a class or a symbol. -/
theorem standard_rule (hr : r ∈ standard.rules) :
    (∃ k : Keyword, r = .ofSpelling (.keyword k) k.spelling) ∨
      (∃ k : LexemeClass, r = .ofClass k.kind k) ∨
        ∃ s : Symbol, r = .ofSpelling (.symbol s) s.spelling := by
  rcases List.mem_append.mp hr with hr | hr
  · rcases List.mem_append.mp hr with hr | hr
    · obtain ⟨k, -, rfl⟩ := List.mem_map.mp hr
      exact .inl ⟨k, rfl⟩
    · simp only [List.mem_cons, List.not_mem_nil, or_false] at hr
      rcases hr with rfl | rfl | rfl | rfl | rfl | rfl | rfl | rfl | rfl
      · exact .inr (.inl ⟨.identifier, rfl⟩)
      · exact .inr (.inl ⟨.decimalInteger, rfl⟩)
      · exact .inr (.inl ⟨.binaryInteger, rfl⟩)
      · exact .inr (.inl ⟨.octalInteger, rfl⟩)
      · exact .inr (.inl ⟨.hexInteger, rfl⟩)
      · exact .inr (.inl ⟨.plainFloat, rfl⟩)
      · exact .inr (.inl ⟨.exponentFloat, rfl⟩)
      · exact .inr (.inl ⟨.string, rfl⟩)
      · exact .inr (.inl ⟨.char, rfl⟩)
  · obtain ⟨s, -, rfl⟩ := List.mem_map.mp hr
    exact .inr (.inr ⟨s, rfl⟩)

/-- And each of them has one. -/
theorem keyword_mem_standard (k : Keyword) :
    Rule.ofSpelling (.keyword k) k.spelling ∈ standard.rules :=
  List.mem_append_left _ (List.mem_append_left _
    (List.mem_map_of_mem (TokenKind.keyword_mem_all k)))

theorem class_mem_standard (k : LexemeClass) : Rule.ofClass k.kind k ∈ standard.rules := by
  cases k <;> simp [standard, LexemeClass.kind]

theorem symbol_mem_standard (s : Symbol) :
    Rule.ofSpelling (.symbol s) s.spelling ∈ standard.rules :=
  List.mem_append_right _ (List.mem_map_of_mem (TokenKind.symbol_mem_all s))

/-- **Every rule** of the language finds one of these. -/
theorem standard_found (hr : r ∈ standard.rules) (hne : w ≠ [])
    (h : r.sought.find? (c :: u) = some w) : Found c u w r.kind := by
  have hhead : w.head? = some c := by
    obtain ⟨rest, heq⟩ := standard_anchored.ahead r hr _ w h
    obtain ⟨d, w, rfl⟩ := List.exists_cons_of_ne_nil hne
    obtain ⟨rfl, -⟩ := List.cons.inj heq
    rfl
  rcases standard_rule hr with ⟨k, rfl⟩ | ⟨k, rfl⟩ | ⟨s, rfl⟩
  · obtain ⟨-, -, hw⟩ := Option.map_eq_some_iff.mp h
    refine .keyword k hw.symm ?_
    obtain ⟨hc, -⟩ := hw ▸ k.nameLexeme
    obtain rfl := Option.some.inj hhead
    exact hc
  · obtain ⟨⟨l, rest⟩, hl, rfl⟩ := Option.map_eq_some_iff.mp h
    exact found_of_lexeme? hl hne
  · obtain ⟨-, -, hw⟩ := Option.map_eq_some_iff.mp h
    obtain ⟨d, z, hd, hname, -⟩ := s.exists_head
    refine .symbol s hw.symm ?_
    rw [← hw] at hhead
    obtain rfl : d = c := Option.some.inj ((congrArg List.head? hd).symm.trans hhead)
    exact hname

/-- What a class takes, its rule finds. -/
theorem exists_rule_of_lexeme? {k : LexemeClass} {t : Text} (h : k.lexeme? t = some (w, rest)) :
    ∃ r ∈ standard.rules, r.sought.find? t = some w :=
  ⟨_, class_mem_standard k, by simp [Rule.ofClass, Sought.find?, h]⟩

/-- And a symbol that stands right ahead. -/
theorem exists_rule_of_symbol (s : Symbol) (rest : Text) :
    ∃ r ∈ standard.rules, r.sought.find? (s.spelling.toList ++ rest) = some s.spelling.toList :=
  ⟨_, symbol_mem_standard s, by simp [Rule.ofSpelling, Sought.find?]⟩

/-- **The token that is taken** is the text that some rule finds and none
finds further, with a kind of the rules that find just this text. -/
theorem standard_takes {P : TokenKind → Prop}
    (hfind : ∃ r ∈ standard.rules, r.sought.find? (c :: u ++ rest) = some (c :: u))
    (hmax : ∀ kind w r, Found c (u ++ rest) w kind → c :: u ++ rest = w ++ r →
      w.length < (c :: u).length ∨ w = c :: u ∧ P kind) (place : Place) :
    ∃ kind, P kind ∧
      standard.tokenOf? TokenKind.all (c :: u ++ rest) place = some ⟨kind, c :: u, place⟩ := by
  obtain ⟨r, hr, hr'⟩ := hfind
  have hne := List.cons_ne_nil c u
  obtain ⟨tok, htok⟩ := Option.isSome_iff_exists.mp (standard_isSome hr hr' hne place)
  obtain ⟨s, hs, hs'⟩ := exists_rule_of_tokenOf? htok
  obtain ⟨hkind, hplace, htne, hfound⟩ := Rule.token?_eq_some hs'
  obtain ⟨rest', heq⟩ := standard_anchored.ahead s hs _ _ hfound
  have hle : (c :: u).length ≤ tok.length :=
    length_le_of_tokenOf? htok hr (TokenKind.mem_all _) (Rule.token?_of_find? hr' hne)
  rcases hmax s.kind tok.value rest' (standard_found hs htne hfound) heq with hlt | ⟨heq, hp⟩
  · exact absurd hlt (Nat.not_lt.mpr hle)
  · refine ⟨tok.kind, hkind ▸ hp, ?_⟩
    obtain ⟨kind, value, p⟩ := tok
    obtain rfl : value = c :: u := heq
    obtain rfl : p = place := hplace
    exact htok

end Lexicon

end StraightLine
