import StraightLine.Proofs.Lexer.Calls
import StraightLine.Proofs.Pattern.Anchor
import StraightLine.Proofs.Pattern.Wrapping

/-!
# Progress — reading a token takes some of the text

A token read moves the cursor over as many octets as it has, from the first
character that is not blank. So it moves unless that character is wider than
the token (`offset_nextOf`), and then the same token is read for ever
(`standing_still`). Where every rule finds only what stands right ahead, the
token starts with that character: the cursor moves with every token, and a
run to the end of input has no more tokens than the text has characters, and
one (`readUpTo_ends`).

Spellings and classes are looked for right ahead. A written pattern is put
behind an anchor as it stands, and keeps it when it is a pattern on its own
(`findsAhead_of_build`).
-/

namespace StraightLine

/-! ## Rules that find what stands right ahead -/

/-- **A lexicon whose rules find only what stands right ahead.** -/
def Lexicon.FindsAhead (x : Lexicon) : Prop :=
  ∀ r ∈ x.rules, ∀ t v, r.sought.find? t = some v → ∃ rest, t = v ++ rest

/-- **A rule that is anchored as it is registered**: one that is ready has an
anchored automaton, if any, and a written one is a pattern on its own. -/
def RuleSource.KeepsAnchor : RuleSource → Prop
  | rule r => ∀ a, r.sought = .pattern a → a.anchored = true
  | keyword _ => True
  | pattern _ text => ∃ p, Pattern.ofText? text = .ok p

/-- A pattern on its own makes an anchored rule, with a caret in front or
without. -/
theorem Rule.anchored_of_ofText? {kind : TokenKind} {text : Text} {p : Pattern} {r : Rule}
    (hp : Pattern.ofText? text = .ok p) (h : Rule.ofText? kind text = .ok r) :
    ∀ a, r.sought = .pattern a → a.anchored = true := by
  unfold Rule.ofText? at h
  dsimp only at h
  split at h
  · rename_i a ha
    obtain rfl := Except.ok.inj h
    rintro _ ⟨⟩
    split at ha
    · obtain ⟨⟨r, u⟩, hr, hp⟩ := exists_of_bind_eq_ok hp
      obtain ⟨rfl, rfl⟩ := Prod.mk.inj (Except.ok.inj hr)
      exact Automaton.anchored_of_readPieces (r := .push .start (.look .textStart) 0) rfl rfl hp ha
    · exact Automaton.anchored_of_readPieces rfl rfl hp ha
  · cases h

theorem RuleSource.KeepsAnchor.anchored {source : RuleSource} {r : Rule} (hs : source.KeepsAnchor)
    (h : source.rule? = .ok r) : ∀ a, r.sought = .pattern a → a.anchored = true := by
  cases source with
  | rule r =>
    obtain rfl := Except.ok.inj h
    exact hs
  | keyword kind =>
    simp only [rule?, Rule.ofKeyword?] at h
    split at h
    · obtain rfl := Except.ok.inj h
      rintro a ⟨⟩
    · cases h
  | pattern kind text =>
    obtain ⟨p, hp⟩ := hs
    exact Rule.anchored_of_ofText? hp h

/-- **Rules that keep their anchors** find only what stands right ahead. -/
theorem Lexicon.findsAhead_of_build {sources : List RuleSource} {x : Lexicon}
    (hx : Lexicon.build sources = .ok x) (hkeeps : ∀ source ∈ sources, source.KeepsAnchor) :
    x.FindsAhead := by
  have hrules : sources.mapM RuleSource.rule? = .ok x.rules := by
    rw [Lexicon.build] at hx
    cases hmap : sources.mapM RuleSource.rule? with
    | error e =>
      rw [hmap] at hx
      cases hx
    | ok rules =>
      rw [hmap] at hx
      rw [← Except.ok.inj hx]
  intro r hr t v hfind
  obtain ⟨source, hsource, hmade⟩ := exists_mem_of_mapM_ok hrules r hr
  by_cases hpattern : ∃ a, r.sought = .pattern a
  · obtain ⟨a, ha⟩ := hpattern
    rw [ha] at hfind
    obtain ⟨m, hm, rfl⟩ := Option.map_eq_some_iff.mp hfind
    exact Automaton.value_of_anchored ((hkeeps source hsource).anchored hmade a ha) hm
  · exact Lexicon.exists_append_of_find? (fun a ha => hpattern ⟨a, ha⟩) hfind

namespace Lexer

variable {s before ahead : Text} {l : Lexer} {kinds : List TokenKind} {t : Token} {n : Nat}

/-! ## One token -/

/-- **Where a token leaves the lexer**: at the end of the text, or behind as
many octets as the token has, from where the blanks end. -/
theorem nextOf_cases (hc : l.cursor = .between before ahead) (hr : l.returned = [])
    (ht : (l.nextOf kinds).1 = some t) :
    (t = .endOfInput (Place.start.after (before ++ ahead)) ∧
        (l.nextOf kinds).2 = { l with cursor := .between (before ++ ahead) [] }) ∨
      (t.value ≠ [] ∧ ahead.trimStart ≠ [] ∧
        (∃ r ∈ l.lexicon.rules, r.sought.find? ahead.trimStart = some t.value) ∧
        (l.nextOf kinds).2 = { l with
          cursor := (Cursor.between (before ++ ahead.takeWhile isBlank) ahead.trimStart).advance
            t.value.byteSize }) := by
  by_cases hend : ahead.trimStart = []
  · rw [nextOf_eq_endOfInput hc hr kinds (Text.trimStart_eq_nil_iff.mp hend)] at ht ⊢
    exact .inl ⟨(Option.some.inj ht).symm, rfl⟩
  · rw [nextOf_eq_tokenOf? hc hr kinds hend] at ht ⊢
    split at ht
    · rename_i u htok
      obtain rfl := Option.some.inj ht
      obtain ⟨r, hrule, hr'⟩ := Lexicon.exists_rule_of_tokenOf? htok
      obtain ⟨-, -, hne, hfind⟩ := Rule.token?_eq_some hr'
      exact .inr ⟨hne, hend, ⟨r, hrule, hfind⟩, rfl⟩
    · cases ht

/-- **Whether a token moves the cursor** is a matter of the first character
that is not blank: it does just when the token has as many octets. -/
theorem offset_nextOf (h : l.InOrder s) (hr : l.returned = []) (ht : (l.nextOf kinds).1 = some t)
    (hne : t.value ≠ []) :
    ∃ o c rest, s.PastBlanks l.cursor.offset o ∧ s.fromByte? o = some (c :: rest) ∧
      (o < (l.nextOf kinds).2.cursor.offset ↔ c.utf8Size ≤ t.value.byteSize) := by
  obtain ⟨before, ahead, rfl, hc⟩ := Cursor.exists_between h.source h.position
  rcases nextOf_cases hc hr ht with ⟨rfl, -⟩ | ⟨-, hend, -, hleft⟩
  · exact absurd rfl hne
  · obtain ⟨c, rest, hct⟩ := List.exists_cons_of_ne_nil hend
    refine ⟨(before ++ ahead.takeWhile isBlank).byteSize, c, rest, ?_, ?_, ?_⟩
    · rw [hc]
      exact Text.pastBlanks_append before ahead
    · rw [← hct]
      exact Text.fromByte?_pastBlanks before ahead
    · have hoffset : (l.nextOf kinds).2.cursor.offset =
          (before ++ ahead.takeWhile isBlank).byteSize +
            Text.byteSize (Text.fitting t.value.byteSize (c :: rest)) := by
        rw [hleft, hct]
        dsimp only
        rw [Cursor.advance_fitting]
        exact Text.byteSize_append _ _
      have hwide := c.utf8Size_pos
      rw [hoffset, Text.fitting]
      split
      · rename_i hfits
        simp only [Text.byteSize, hfits, iff_true]
        omega
      · rename_i hfits
        simp [Text.byteSize, hfits]

/-- A token that stands right ahead is taken off the text. -/
theorem nextOf_of_findsAhead (hx : l.lexicon.FindsAhead) (hc : l.cursor = .between before ahead)
    (hr : l.returned = []) (ht : (l.nextOf kinds).1 = some t)
    (hend : t ≠ .endOfInput t.place) :
    t.value ≠ [] ∧ ∃ rest, ahead = ahead.takeWhile isBlank ++ (t.value ++ rest) ∧
      (l.nextOf kinds).2 = { l with
        cursor := .between (before ++ ahead.takeWhile isBlank ++ t.value) rest } := by
  rcases nextOf_cases hc hr ht with ⟨rfl, -⟩ | ⟨hne, -, ⟨r, hrule, hfind⟩, hleft⟩
  · exact absurd rfl hend
  · obtain ⟨rest, hrest⟩ := hx r hrule _ _ hfind
    refine ⟨hne, rest, ?_, ?_⟩
    · rw [← hrest, Text.takeWhile_append_trimStart]
    · rw [hleft, hrest, Cursor.advance_between]

/-- **Where rules find what stands right ahead, every token moves the
cursor**, by its own octets. -/
theorem offset_nextOf_of_findsAhead (hx : l.lexicon.FindsAhead) (h : l.InOrder s)
    (hr : l.returned = []) (ht : (l.nextOf kinds).1 = some t)
    (hend : t ≠ .endOfInput t.place) :
    ∃ o, s.PastBlanks l.cursor.offset o ∧ 0 < t.value.byteSize ∧
      (l.nextOf kinds).2.cursor.offset = o + t.value.byteSize := by
  obtain ⟨before, ahead, rfl, hc⟩ := Cursor.exists_between h.source h.position
  obtain ⟨hne, rest, -, hleft⟩ := nextOf_of_findsAhead hx hc hr ht hend
  refine ⟨(before ++ ahead.takeWhile isBlank).byteSize, ?_, ?_, ?_⟩
  · rw [hc]
    exact Text.pastBlanks_append before ahead
  · obtain ⟨c, v, hv⟩ := List.exists_cons_of_ne_nil hne
    have hwide := c.utf8Size_pos
    rw [hv, Text.byteSize]
    omega
  · rw [hleft]
    exact Text.byteSize_append (before ++ ahead.takeWhile isBlank) t.value

/-! ## Runs -/

/-- How many tokens a lexer can give out at most before the end of input. -/
def toGive (l : Lexer) : Nat := l.cursor.remaining.length + l.returned.length

/-- **One token less to give.** -/
theorem toGive_nextOf (hx : l.lexicon.FindsAhead) (h : l.InOrder s)
    (ht : (l.nextOf kinds).1 = some t) (hkind : t.kind ≠ .endOfInput) :
    (l.nextOf kinds).2.toGive < l.toGive := by
  cases hr : l.returned with
  | cons u returned =>
    have hnext : l.nextOf kinds = (some u, { l with returned := returned }) := by
      rw [nextOf, hr]
    simp [hnext, toGive, hr]
  | nil =>
    obtain ⟨before, ahead, rfl, hc⟩ := Cursor.exists_between h.source h.position
    have hend : t ≠ .endOfInput t.place := fun heq => hkind (by rw [heq]; rfl)
    obtain ⟨hne, rest, hahead, hleft⟩ := nextOf_of_findsAhead hx hc hr ht hend
    have hpos := List.length_pos_iff.mpr hne
    have hlength := congrArg List.length hahead
    rw [List.length_append, List.length_append] at hlength
    simp only [toGive, hleft, hc, hr, Cursor.remaining_between, List.length_nil]
    omega

/-- A run that has ended is not changed by more rounds. -/
theorem readUpTo_of_le (hend : ∀ place, (l.readUpTo n).failure ≠ some (.stalled place)) {m : Nat}
    (hm : n ≤ m) : l.readUpTo m = l.readUpTo n := by
  induction n generalizing l m with
  | zero => exact absurd rfl (hend l.place)
  | succ n ih =>
    obtain ⟨m, rfl⟩ := Nat.exists_eq_succ_of_ne_zero (show m ≠ 0 by omega)
    rw [readUpTo, readUpTo]
    rw [readUpTo] at hend
    split
    · rfl
    · rename_i t l' hread
      split
      · rfl
      · rename_i hkind
        rw [hread] at hend
        simp only [if_neg hkind] at hend
        rw [ih hend (Nat.le_of_succ_le_succ hm)]

/-- A read that fails says what was missing. -/
theorem ne_stalled_of_nextToken {e : LexError} {l' : Lexer} (h : l.nextToken = (.error e, l'))
    (place : Place) : e ≠ .stalled place := by
  rw [nextToken, expectOf] at h
  split at h
  · cases h
  · rw [← Except.error.inj (Prod.mk.inj h).1]
    rintro ⟨⟩

/-- **Runs end.** There are no more tokens than the lexer can give, and the end
of input. -/
theorem readUpTo_ends (hx : l.lexicon.FindsAhead) (h : l.InOrder s) (hn : l.toGive < n) :
    (∀ place, (l.readUpTo n).failure ≠ some (.stalled place)) ∧
      (l.readUpTo n).tokens.length ≤ l.toGive + 1 := by
  induction n generalizing l with
  | zero => omega
  | succ n ih =>
    rw [readUpTo]
    split
    · rename_i e l' hread
      refine ⟨fun place hfail => ?_, Nat.zero_le _⟩
      exact ne_stalled_of_nextToken hread place (Option.some.inj hfail)
    · rename_i t l' hread
      split
      · refine ⟨fun place hfail => ?_, Nat.le_add_left 1 _⟩
        cases hfail
      · rename_i hkind
        obtain rfl : (l.nextOf TokenKind.all).2 = l' := by
          rw [← expectOf_snd, ← nextToken, hread]
        have ht : (l.nextOf TokenKind.all).1 = some t := by
          rw [← expectOf_eq_ok_iff, ← nextToken, hread]
        have hless := toGive_nextOf hx h ht hkind
        obtain ⟨hend, hlength⟩ := ih (l := (l.nextOf TokenKind.all).2)
          (by rwa [nextOf_lexicon]) (nextOf_inOrder h TokenKind.all) (by omega)
        refine ⟨hend, ?_⟩
        rw [List.length_cons]
        omega

/-- **Lexing makes progress** under a lexicon whose written patterns are
patterns on their own. Whatever calls lead to, with nothing handed back every
token but the end of input moves the cursor past the blanks in front of it;
and a run to the end of input ends in so many rounds that more make no
difference, with at most one token for each character of the text and one. -/
theorem lexing_progresses {sources : List RuleSource} {x : Lexicon}
    (hx : Lexicon.build sources = .ok x) (hkeeps : ∀ source ∈ sources, source.KeepsAnchor)
    (s : Text) :
    (∀ calls kinds t, let l := (ofText x s).after calls
      l.returned = [] → (l.nextOf kinds).1 = some t → t ≠ .endOfInput t.place →
        ∃ o, s.PastBlanks l.cursor.offset o ∧ o < (l.nextOf kinds).2.cursor.offset) ∧
    (∀ place, (ofText x s).run.failure ≠ some (.stalled place)) ∧
    (∀ n, s.length < n → (ofText x s).readUpTo n = (ofText x s).run) ∧
    (ofText x s).run.tokens.length ≤ s.length + 1 := by
  have hahead := Lexicon.findsAhead_of_build hx hkeeps
  have horder := ofText_inOrder x s
  have hgive : (ofText x s).toGive = s.length := by
    rw [toGive, show (ofText x s).cursor = .between [] s from rfl, Cursor.remaining_between]
    rfl
  have hrun : (ofText x s).run = (ofText x s).readUpTo (s.length + 1) := by
    rw [← hgive]
    rfl
  obtain ⟨hends, hlength⟩ := readUpTo_ends (n := s.length + 1) hahead horder (by omega)
  rw [hrun, ← hgive]
  refine ⟨fun calls kinds t hr ht hend => ?_, ?_, ?_, ?_⟩
  · have hlexicon : ((ofText x s).after calls).lexicon.FindsAhead := by
      rw [after_lexicon]
      exact hahead
    obtain ⟨o, hpast, hpos, hoffset⟩ :=
      offset_nextOf_of_findsAhead hlexicon (after_inOrder horder calls) hr ht hend
    exact ⟨o, hpast, by omega⟩
  · rwa [hgive]
  · rw [hgive]
    exact fun n hn => readUpTo_of_le hends hn
  · rwa [← hgive] at hlength

/-- A pattern with two branches, which holds to the start of the text with
both, and a keyword. -/
theorem lexing_progresses_branches :
    ∃ x, Lexicon.build [.pattern .identifier "^\u00e9+|ab".toList, .keyword (.keyword .if_)] =
        .ok x ∧
      (∃ o, Text.PastBlanks "\n \u00e9b".toList 0 o ∧
        o < ((ofText x "\n \u00e9b".toList).nextOf [.identifier]).2.cursor.offset) ∧
      (∀ place, (ofText x "\n \u00e9b".toList).run.failure ≠ some (.stalled place)) ∧
      (ofText x "\n \u00e9b".toList).run.tokens.length ≤ 5 := by
  have hx : Lexicon.build [.pattern .identifier "^\u00e9+|ab".toList, .keyword (.keyword .if_)] =
      .ok ⟨[⟨.identifier, .pattern ⟨#[.accept, .take (.single 'b') 0, .take (.single 'a') 1,
        .choose 4 0, .take (.single '\u00e9') 3, .choose 4 2, .test .textStart 5], 6, true, 0⟩⟩,
        .ofSpelling (.keyword .if_) "if"]⟩ := by decide +kernel
  have hkeeps : ∀ source ∈ [RuleSource.pattern .identifier "^\u00e9+|ab".toList,
      .keyword (.keyword .if_)], source.KeepsAnchor :=
    List.forall_mem_cons.mpr ⟨⟨.alt (.seq (.look .textStart)
      (.repetition true 1 none (.literal ['\u00e9']))) (.literal ['a', 'b']), by decide +kernel⟩,
      by simp [RuleSource.KeepsAnchor]⟩
  obtain ⟨hmoves, hends, -, hfew⟩ := lexing_progresses hx hkeeps "\n \u00e9b".toList
  exact ⟨_, hx, hmoves [] [.identifier] ⟨.identifier, ['\u00e9'], ⟨2, 2⟩⟩ rfl (by decide +kernel)
    (by decide), hends, hfew⟩

/-- A lexer that a token leaves as it was gives out that token for ever. -/
theorem readUpTo_of_nextToken_eq (hread : l.nextToken = (.ok t, l)) (hkind : t.kind ≠ .endOfInput)
    (n : Nat) : (l.readUpTo n).tokens = List.replicate n t ∧
      (l.readUpTo n).failure = some (.stalled l.place) := by
  induction n with
  | zero => exact ⟨rfl, rfl⟩
  | succ n ih =>
    rw [readUpTo, hread]
    simp only [if_neg hkind]
    exact ⟨by rw [ih.1, List.replicate_succ], ih.2⟩

/-- **A pattern that closes the group it is put into** leaves the anchor: its
second branch matches behind a character of two octets, the cursor is moved by
one, which is nowhere, and the run never ends. -/
theorem standing_still :
    ∃ x, Lexicon.build [.pattern .identifier "a)|(?:b".toList] = .ok x ∧
      (ofText x "\u00e9b".toList).nextOf [.identifier] =
        (some ⟨.identifier, ['b'], ⟨1, 1⟩⟩, ofText x "\u00e9b".toList) ∧
      ∀ n, ((ofText x "\u00e9b".toList).readUpTo n).tokens.length = n ∧
        ((ofText x "\u00e9b".toList).readUpTo n).failure = some (.stalled ⟨1, 1⟩) := by
  have hx : Lexicon.build [.pattern .identifier "a)|(?:b".toList] =
      .ok ⟨[⟨.identifier, .pattern ⟨#[.accept, .take ⟨[(98, 98)]⟩ 0, .take ⟨[(97, 97)]⟩ 0,
        .test .textStart 2, .choose 3 1], 4, false, 0⟩⟩]⟩ := by decide +kernel
  refine ⟨_, hx, by decide +kernel, fun n => ?_⟩
  generalize hl : ofText _ _ = l
  have hread : l.nextToken = (.ok ⟨.identifier, ['b'], ⟨1, 1⟩⟩, l) := by
    rw [← hl]
    decide +kernel
  obtain ⟨htokens, hfail⟩ := readUpTo_of_nextToken_eq hread (by decide) n
  exact ⟨by rw [htokens, List.length_replicate], by rw [hfail, ← hl]; rfl⟩

end Lexer

end StraightLine
