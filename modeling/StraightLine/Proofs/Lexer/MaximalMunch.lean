import Mathlib.Data.List.Nodup
import StraightLine.Proofs.Lexeme.Maximal
import StraightLine.Proofs.Lexer.Calls
import StraightLine.Proofs.Lexer.Longest
import StraightLine.Proofs.Lexer.Written

/-!
# Maximal munch — the token that stands right ahead

Every kind of the language has a plain set of texts, `TokenKind.Class`: one
spelling, or the members of its classes of lexemes. The rules of a kind find a
text of its class and no shorter one than there is (`class_of_find?`,
`exists_find?_of_class`). Of what they find the longest is taken, and between
kinds that find the same text the one listed first (`first_of_tokenOf?`). So
the next token is the longest text of any class that stands ahead, wherever
calls have led the lexer (`maximal_munch`).
-/

namespace StraightLine

/-! ## Classes -/

/-- **The texts of a kind**: its spelling, or the members of its classes. -/
inductive TokenKind.Class : TokenKind → Text → Prop
  | keyword (k : Keyword) : Class (.keyword k) k.spelling.toList
  | member {k : LexemeClass} {v : Text} (h : k.Member v) : Class k.kind v
  | symbol (s : Symbol) : Class (.symbol s) s.spelling.toList

/-- **The kind that comes first** among those that have a text. -/
def TokenKind.First (kind : TokenKind) (v : Text) : Prop :=
  kind.Class v ∧ ∃ before after, all = before ++ kind :: after ∧ ∀ k ∈ before, ¬ k.Class v

/-- **A text that can be a token**: it is not empty, and some kind has it. -/
def Text.Lexical (v : Text) : Prop := v ≠ [] ∧ ∃ kind : TokenKind, kind.Class v

theorem Text.lexical_of_nameLexeme {v : Text} (h : v.NameLexeme) : v.Lexical := by
  refine ⟨?_, _, .member (k := .identifier) h⟩
  obtain ⟨-⟩ := h
  exact List.cons_ne_nil _ _

namespace Lexicon

variable {r : Rule} {kind : TokenKind} {t v w rest : Text} {place : Place} {tok : Token}

/-- What a rule of the language finds is a text of its kind. -/
theorem class_of_find? (hr : r ∈ standard.rules) (h : r.sought.find? t = some v) :
    r.kind.Class v := by
  rcases standard_rule hr with ⟨k, rfl⟩ | ⟨k, rfl⟩ | ⟨s, rfl⟩
  · obtain ⟨-, -, rfl⟩ := Option.map_eq_some_iff.mp h
    exact .keyword k
  · obtain ⟨⟨l, u⟩, hl, rfl⟩ := Option.map_eq_some_iff.mp h
    exact .member (LexemeClass.member_of_lexeme? hl).2
  · obtain ⟨-, -, rfl⟩ := Option.map_eq_some_iff.mp h
    exact .symbol s

/-- A text of a kind that stands right ahead is found by a rule of this kind,
if not more than it. -/
theorem exists_find?_of_class (h : kind.Class v) (rest : Text) :
    ∃ r ∈ standard.rules, r.kind = kind ∧ ∃ w, r.sought.find? (v ++ rest) = some (v ++ w) := by
  cases h with
  | keyword k =>
    exact ⟨_, keyword_mem_standard k, rfl, [], by simp [Rule.ofSpelling, Sought.find?]⟩
  | @member k _ h =>
    obtain ⟨w, u, hread⟩ := LexemeClass.lexeme?_append h rest
    exact ⟨_, class_mem_standard k, rfl, w, by simp [Rule.ofClass, Sought.find?, hread]⟩
  | symbol s =>
    exact ⟨_, symbol_mem_standard s, rfl, [], by simp [Rule.ofSpelling, Sought.find?]⟩

/-- So there is a token of this kind that is at least as long. -/
theorem exists_token?_of_class (h : kind.Class v) (hne : v ≠ []) (hv : v <+: t) (place : Place) :
    ∃ r ∈ standard.rules, r.kind = kind ∧
      ∃ u, r.token? t place = some u ∧ v.length ≤ u.length := by
  obtain ⟨rest, rfl⟩ := hv
  obtain ⟨r, hr, hkind, w, hfind⟩ := exists_find?_of_class h rest
  refine ⟨r, hr, hkind, _, Rule.token?_of_find? hfind (by simp [hne]), ?_⟩
  rw [Token.length, List.length_append]
  exact Nat.le_add_right _ _

/-- **The token that is taken** is the longest text of any class that stands
ahead, and its kind comes first among those that have it. -/
theorem isLongest_of_tokenOf? (h : standard.tokenOf? TokenKind.all t place = some tok) :
    t.IsLongest Text.Lexical tok.value ∧ tok.kind.First tok.value ∧ tok.place = place := by
  obtain ⟨r, hr, hr'⟩ := exists_rule_of_tokenOf? h
  obtain ⟨hkind, hplace, hne, hfind⟩ := Rule.token?_eq_some hr'
  obtain ⟨rest, heq⟩ := standard_anchored.ahead r hr _ _ hfind
  have hclass : tok.kind.Class tok.value := hkind ▸ class_of_find? hr hfind
  refine ⟨⟨⟨hne, _, hclass⟩, ⟨rest, heq.symm⟩, ?_⟩, ⟨hclass, ?_⟩, hplace⟩
  · rintro w ⟨hw, kind, hkind⟩ hahead
    obtain ⟨r', hr', -, u, hu, hlen⟩ := exists_token?_of_class hkind hw hahead place
    exact hlen.trans (length_le_of_tokenOf? h hr' (TokenKind.mem_all _) hu)
  · obtain ⟨before, after, hall, hbefore⟩ := first_of_tokenOf? h
    refine ⟨before, after, hall, fun k hk hclass => ?_⟩
    obtain ⟨r', hr', hkind', u, hu, hlen⟩ :=
      exists_token?_of_class hclass hne ⟨rest, heq.symm⟩ place
    exact absurd hlen (Nat.not_le.mpr (hbefore r' hr' (hkind' ▸ hk) u hu))

/-- **Nothing is taken** just where no text of any class stands ahead. -/
theorem tokenOf?_eq_none_iff :
    standard.tokenOf? TokenKind.all t place = none ↔
      ∀ v : Text, v <+: t → ¬ v.Lexical := by
  constructor
  · rintro hnone v hv ⟨hne, kind, hclass⟩
    obtain ⟨r, hr, -, u, hu, -⟩ := exists_token?_of_class hclass hne hv place
    have hsome := tokenOf?_isSome hr (TokenKind.mem_all r.kind) hu
    rw [hnone] at hsome
    cases hsome
  · intro hno
    rcases htok : standard.tokenOf? TokenKind.all t place with - | tok
    · rfl
    · have hlongest := (isLongest_of_tokenOf? htok).1
      exact absurd hlongest.holds (hno _ hlongest.ahead)

end Lexicon

/-! ## Words -/

/-- Keywords come before identifiers. -/
theorem TokenKind.keyword_mem_before_identifier {before after : List TokenKind}
    (h : all = before ++ .identifier :: after) (k : Keyword) : .keyword k ∈ before := by
  have hk : TokenKind.keyword k ∈ Keyword.all.map keyword :=
    List.mem_map_of_mem (keyword_mem_all k)
  rw [all, List.append_assoc, List.append_assoc] at h
  rcases List.append_eq_append_iff.mp h with ⟨rest, rfl, -⟩ | ⟨rest, hrest, hback⟩
  · exact List.mem_append_left rest hk
  · rcases rest with - | ⟨kind, rest⟩
    · rwa [hrest, List.append_nil] at hk
    · -- an identifier would stand among the keywords
      obtain ⟨rfl, -⟩ := List.cons.inj hback
      have hmem : TokenKind.identifier ∈ Keyword.all.map keyword := by
        rw [hrest]
        exact List.mem_append_right _ List.mem_cons_self
      obtain ⟨_, -, heq⟩ := List.mem_map.mp hmem
      cases heq

/-- No two keywords are spelled alike. -/
theorem Keyword.spelling_injective {k k' : Keyword} (h : k.spelling = k'.spelling) : k = k' :=
  List.inj_on_of_nodup_map (by decide : (Keyword.all.map spelling).Nodup)
    (TokenKind.keyword_mem_all k) (TokenKind.keyword_mem_all k') h

namespace Lexicon

variable {w rest : Text} {place : Place} {tok : Token}

/-- In front of a name the token is one: no class but those of names has texts
that start as a name does. -/
theorem nameLexeme_of_tokenOf? (hw : w.NameLexeme)
    (h : standard.tokenOf? TokenKind.all (w ++ rest) place = some tok) :
    tok.value.NameLexeme ∧ (tok.kind = .identifier ∨
      ∃ k : Keyword, tok.kind = .keyword k ∧ tok.value = k.spelling.toList) := by
  obtain ⟨r, hr, hr'⟩ := exists_rule_of_tokenOf? h
  obtain ⟨hkind, -, hne, hfind⟩ := Rule.token?_eq_some hr'
  obtain @⟨c, u, hc, -⟩ := hw
  have hfound := standard_found hr hne hfind
  rw [← hkind] at hfound
  generalize tok.kind = kind at hfound
  cases hfound with
  | keyword k hv => exact ⟨hv ▸ k.nameLexeme, .inr ⟨k, rfl, hv⟩⟩
  | symbol s hv hc' =>
    exact absurd (Text.isNameChar_of_isNameStart hc) (Bool.eq_false_iff.mp hc')
  | name hread => exact ⟨(Text.nameLexeme_of_nameLexeme? hread).2, .inl rfl⟩
  | number hk hread hn => exact absurd hn (Text.not_startsNumber_of_isNameStart hc _)
  | quoted kind hq =>
    rcases hq with rfl | rfl
    · exact absurd hc (by decide)
    · exact absurd hc (by decide)

/-- **A name that nothing goes on in** is taken whole, and is a keyword just
when it is spelled like one. -/
theorem name_of_tokenOf? (hw : w.NameLexeme) (hr : rest.StartsOutside Text.isNameChar)
    (h : standard.tokenOf? TokenKind.all (w ++ rest) place = some tok) :
    tok.value = w ∧ (tok.kind = .identifier ∨ ∃ k, tok.kind = .keyword k) ∧
      ∀ k, tok.kind = .keyword k ↔ w = k.spelling.toList := by
  obtain ⟨hlongest, ⟨hclass, before, after, hall, hbefore⟩, -⟩ := isLongest_of_tokenOf? h
  obtain ⟨hvalue, hkind⟩ := nameLexeme_of_tokenOf? hw h
  have hread : LexemeClass.identifier.lexeme? (w ++ rest) = some (w, rest) :=
    Text.nameLexeme?_outside hw hr
  have heq : tok.value = w := by
    refine Text.IsLongest.unique ?_ (LexemeClass.lexeme?_eq_some_iff.mp hread).2
    exact ⟨hvalue, hlongest.ahead, fun v hv => hlongest.longest v (Text.lexical_of_nameLexeme hv)⟩
  refine ⟨heq, hkind.imp_right fun ⟨k, hk, _⟩ => ⟨k, hk⟩, fun k => ⟨fun hk => ?_, fun hk => ?_⟩⟩
  · rcases hkind with hid | ⟨k', hk', hspelling⟩
    · cases hid.symm.trans hk
    · obtain rfl := TokenKind.keyword.inj (hk'.symm.trans hk)
      rw [← heq, hspelling]
  · rcases hkind with hid | ⟨k', hk', hspelling⟩
    · have hmem := TokenKind.keyword_mem_before_identifier (hid ▸ hall) k
      have hkeyword : (TokenKind.keyword k).Class tok.value := by
        rw [heq, hk]
        exact .keyword k
      exact absurd hkeyword (hbefore _ hmem)
    · have hsame : k'.spelling = k.spelling :=
        String.toList_inj.mp (hspelling.symm.trans (heq.trans hk))
      rw [hk', Keyword.spelling_injective hsame]

end Lexicon

namespace Lexer

variable {l : Lexer} {before ahead : Text}

/-! ## The next token -/

/-- **What a lexer answers** in front of more than blanks: what its lexicon
finds behind them, or that it finds nothing. -/
theorem expectOf_eq (hc : l.cursor = .between before ahead) (hr : l.returned = [])
    (kinds : List TokenKind) (h : ahead.trimStart ≠ []) :
    (l.expectOf kinds).1 =
      match l.lexicon.tokenOf? kinds ahead.trimStart l.cursor.skipBlanks.place with
      | some t => .ok t
      | none => .error (.unexpectedToken kinds (ahead.trimStart.take quoteLength)
          l.cursor.skipBlanks.place) := by
  have hskip : l.cursor.skipBlanks =
      .between (before ++ ahead.takeWhile isBlank) ahead.trimStart := by
    rw [hc, Cursor.skipBlanks_between]
  have hnext := nextOf_eq_tokenOf? hc hr kinds h
  rw [hskip, Cursor.place_between]
  rcases htok : l.lexicon.tokenOf? kinds ahead.trimStart
      (Place.start.after (before ++ ahead.takeWhile isBlank)) with - | t
  · rw [htok] at hnext
    simp only [expectOf, hnext, missing, hskip, Cursor.slice, Cursor.remaining_between,
      Cursor.place_between]
  · rw [htok] at hnext
    simp only [expectOf, hnext]

/-- **Maximal munch.** Every rule of the language finds the leftmost match of
its written pattern, the preferred one. Whatever calls lead to, with nothing
handed back and more than blanks ahead, the next token is the longest text of
any class that stands there, with the kind that comes first among those that
have it; an error says that no text of any class does. A name that nothing
goes on in is taken whole, and it is a keyword just when it is spelled like
one. -/
theorem maximal_munch :
    List.Forall₂ Rule.AsWritten Lexicon.standard.rules Lexicon.written ∧
    ∀ (s : Text) (calls : List Call), let l := (ofText .standard s).after calls
      let ahead := l.cursor.remaining.trimStart
      let place := l.cursor.skipBlanks.place
      l.returned = [] → ahead ≠ [] →
        (∀ t, l.nextToken.1 = .ok t →
          ahead.IsLongest Text.Lexical t.value ∧ t.kind.First t.value ∧ t.place = place) ∧
        ((∃ e, l.nextToken.1 = .error e) ↔ ∀ v : Text, v <+: ahead → ¬ v.Lexical) ∧
        (∀ e, l.nextToken.1 = .error e →
          e = .unexpectedToken TokenKind.all (ahead.take quoteLength) place) ∧
        ∀ w rest : Text, ahead = w ++ rest → w.NameLexeme → rest.StartsOutside Text.isNameChar →
          ∃ t, l.nextToken.1 = .ok t ∧ t.value = w ∧
            (t.kind = .identifier ∨ ∃ k, t.kind = .keyword k) ∧
            ∀ k, t.kind = .keyword k ↔ w = k.spelling.toList := by
  refine ⟨Lexicon.standard_asWritten, fun s calls => ?_⟩
  intro l r place hreturned hopen
  have horder := after_inOrder (ofText_inOrder .standard s) calls
  have hlexicon : l.lexicon = .standard := after_lexicon (ofText .standard s) calls
  obtain ⟨before, ahead, -, hc⟩ := Cursor.exists_between horder.source horder.position
  have hr : r = ahead.trimStart := by
    rw [← Cursor.remaining_between before ahead, ← hc]
  have hnext := expectOf_eq hc hreturned TokenKind.all (hr ▸ hopen)
  rw [← hr, hlexicon] at hnext
  change l.nextToken.1 = _ at hnext
  rcases htok : Lexicon.standard.tokenOf? TokenKind.all r place with - | tok
  · rw [htok] at hnext
    have hno := Lexicon.tokenOf?_eq_none_iff.mp htok
    refine ⟨fun t ht => ?_, ⟨fun _ => hno, fun _ => ⟨_, hnext⟩⟩, fun e he => ?_,
      fun w rest heq hw _ => ?_⟩
    · cases hnext.symm.trans ht
    · exact Except.error.inj (he.symm.trans hnext)
    · exact absurd (Text.lexical_of_nameLexeme hw) (hno w ⟨rest, heq.symm⟩)
  · rw [htok] at hnext
    have htaken := Lexicon.isLongest_of_tokenOf? htok
    refine ⟨fun t ht => ?_, ⟨fun ⟨e, he⟩ => ?_, fun hno => ?_⟩, fun e he => ?_,
      fun w rest heq hw hout => ?_⟩
    · obtain rfl := Except.ok.inj (hnext.symm.trans ht)
      exact htaken
    · cases hnext.symm.trans he
    · exact absurd htaken.1.holds (hno _ htaken.1.ahead)
    · cases hnext.symm.trans he
    · exact ⟨tok, hnext, Lexicon.name_of_tokenOf? hw hout (heq ▸ htok)⟩

/-- A name that starts like a keyword, a number that starts like an operator and
goes on in letters, and a character that starts no token. -/
theorem maximal_munch_words_and_numbers :
    (∃ t, ((ofText .standard "if iffy-0x1F>@".toList).after [.nextToken, .hasNext]).nextToken.1 =
        .ok t ∧ t.value = "iffy".toList ∧ ∀ k, t.kind ≠ .keyword k) ∧
      (Text.IsLongest Text.Lexical "-0x1F>@".toList "-0x1F".toList ∧
        TokenKind.First .integer "-0x1F".toList) ∧
      ∀ v : Text, v <+: "@".toList → ¬ v.Lexical := by
  refine ⟨?_, ?_, ?_⟩
  · obtain ⟨-, -, -, hname⟩ := maximal_munch.2 "if iffy-0x1F>@".toList [.nextToken, .hasNext]
      (by decide +kernel) (by decide +kernel)
    obtain ⟨t, ht, hvalue, -, hspelled⟩ := hname "iffy".toList "-0x1F>@".toList
      (by decide +kernel) (.mk (by decide) (List.all_eq_true.mp (by decide)))
      (Text.startsOutside_cons (by decide))
    refine ⟨t, ht, hvalue, fun k hk => ?_⟩
    have hk := (hspelled k).mp hk
    cases k
    all_goals exact absurd hk (by decide)
  · obtain ⟨hok, -⟩ := maximal_munch.2 "if iffy-0x1F>@".toList [.nextToken, .nextToken]
      (by decide +kernel) (by decide +kernel)
    obtain ⟨hlongest, hfirst, -⟩ := hok ⟨.integer, "-0x1F".toList, ⟨1, 8⟩⟩ (by decide +kernel)
    have hahead : ((ofText .standard "if iffy-0x1F>@".toList).after
        [.nextToken, .nextToken]).cursor.remaining.trimStart = "-0x1F>@".toList := by
      decide +kernel
    exact ⟨hahead ▸ hlongest, hfirst⟩
  · obtain ⟨-, hiff, -⟩ := maximal_munch.2 "if iffy-0x1F>@".toList
      [.nextToken, .nextToken, .nextToken, .nextToken] (by decide +kernel) (by decide +kernel)
    have hahead : ((ofText .standard "if iffy-0x1F>@".toList).after
        [.nextToken, .nextToken, .nextToken, .nextToken]).cursor.remaining.trimStart =
          "@".toList := by
      decide +kernel
    rw [← hahead]
    exact hiff.mp ⟨.unexpectedToken TokenKind.all "@".toList ⟨1, 14⟩, by decide +kernel⟩

end Lexer

end StraightLine
