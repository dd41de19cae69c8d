import StraightLine.Proofs.Lexer.Calls
import StraightLine.Proofs.Lexer.Choice

/-!
# Widening — asking for more kinds

Where rules find only what stands right ahead, all that they find in a text are
prefixes of it, and the longest is told by its length. So a lexicon that is
asked for more kinds takes a token that starts with the one it took
(`tokenOf?_widens`), and the order of the kinds and how often each is named
decide on the kind alone (`tokenOf?_agree`). A lexer moves on by the text of the
token, so the lexers left are the same: **`nextOf_widens`**.
-/

namespace StraightLine

/-- **Tokens that differ at most in their kind**: the same text at the same
place. -/
structure Token.Agree (t u : Token) : Prop where
  value : t.value = u.value
  place : t.place = u.place

namespace Lexicon

variable {x : Lexicon} {kinds kinds' : List TokenKind} {ahead : Text} {place : Place}
  {t : Token}

/-- **More kinds, more text**: the token taken for them starts with the one
taken for some of them. -/
theorem tokenOf?_widens (hx : x.Anchored) (hsub : kinds ⊆ kinds')
    (h : x.tokenOf? kinds ahead place = some t) :
    ∃ u, x.tokenOf? kinds' ahead place = some u ∧ t.value <+: u.value ∧ t.place = u.place := by
  obtain ⟨r, hr, hwanted, htok⟩ := exists_wanted_rule h
  obtain ⟨u, hu⟩ := Option.isSome_iff_exists.mp (tokenOf?_isSome hr (hsub hwanted) htok)
  have hlength : t.length ≤ u.length := length_le_of_tokenOf? hu hr (hsub hwanted) htok
  obtain ⟨-, htplace, rest, hrest⟩ := hx.tokenOf?_eq_some h
  obtain ⟨-, huplace, rest', hrest'⟩ := hx.tokenOf?_eq_some hu
  have htahead : t.value <+: ahead := ⟨rest, hrest.symm⟩
  have huahead : u.value <+: ahead := ⟨rest', hrest'.symm⟩
  exact ⟨u, hu, List.prefix_of_prefix_length_le htahead huahead hlength,
    htplace.trans huplace.symm⟩

/-- **The same kinds, the same text**, in whatever order they are asked for. -/
theorem tokenOf?_agree (hx : x.Anchored) (hsame : ∀ k, k ∈ kinds ↔ k ∈ kinds')
    (ahead : Text) (place : Place) :
    Option.Rel Token.Agree (x.tokenOf? kinds ahead place) (x.tokenOf? kinds' ahead place) := by
  have hsub : kinds ⊆ kinds' := fun k hk => (hsame k).mp hk
  have hsub' : kinds' ⊆ kinds := fun k hk => (hsame k).mpr hk
  rcases htok : x.tokenOf? kinds ahead place with - | t
  · rcases htok' : x.tokenOf? kinds' ahead place with - | u
    · exact .none
    · -- what the others find, these find too
      obtain ⟨t, ht, -⟩ := tokenOf?_widens hx hsub' htok'
      cases htok.symm.trans ht
  · obtain ⟨u, hu, hstarts, hplace⟩ := tokenOf?_widens hx hsub htok
    obtain ⟨t', ht', hstarts', -⟩ := tokenOf?_widens hx hsub' hu
    obtain rfl : t = t' := Option.some.inj (htok.symm.trans ht')
    rw [hu]
    exact .some ⟨hstarts.eq_of_length_le hstarts'.length_le, hplace⟩

end Lexicon

namespace Lexer

variable {l : Lexer} {kinds kinds' : List TokenKind} {t : Token}

/-- **What a read comes to** with nothing handed back: the end of input behind
blanks alone, and else what the lexicon finds behind them. -/
theorem nextOf_eq (hr : l.returned = []) (kinds : List TokenKind) :
    l.nextOf kinds =
      if l.cursor.skipBlanks.isEmpty then
        (some (.endOfInput l.cursor.skipBlanks.place), { l with cursor := l.cursor.skipBlanks })
      else
        match l.lexicon.tokenOf? kinds l.cursor.skipBlanks.remaining l.cursor.skipBlanks.place with
        | some t =>
          (some t, { l with cursor := l.cursor.skipBlanks.advance t.value.byteSize })
        | none => (none, l) := by
  obtain ⟨c, x, saved, returned⟩ := l
  obtain rfl : returned = [] := hr
  rfl

/-- A read of more kinds takes a token that starts with the one that a read of
some of them takes. -/
theorem nextOf_prefix (hx : l.lexicon.Anchored) (hr : l.returned = []) (hsub : kinds ⊆ kinds')
    (ht : (l.nextOf kinds).1 = some t) :
    ∃ u, (l.nextOf kinds').1 = some u ∧ t.value <+: u.value := by
  rw [nextOf_eq hr] at ht ⊢
  split at ht
  · rename_i hend
    rw [if_pos hend]
    exact ⟨t, ht, List.prefix_rfl⟩
  · rename_i hopen
    rw [if_neg hopen]
    split at ht
    · rename_i v htok
      obtain rfl := Option.some.inj ht
      obtain ⟨u, hu, hstarts, -⟩ := Lexicon.tokenOf?_widens hx hsub htok
      rw [hu]
      exact ⟨u, rfl, hstarts⟩
    · cases ht

/-- A read of the same kinds takes the same text, if any, and leaves the same
lexer. -/
theorem nextOf_agree (hx : l.lexicon.Anchored) (hr : l.returned = [])
    (hsame : ∀ k, k ∈ kinds ↔ k ∈ kinds') :
    Option.Rel Token.Agree (l.nextOf kinds).1 (l.nextOf kinds').1 ∧
      (l.nextOf kinds).2 = (l.nextOf kinds').2 := by
  rw [nextOf_eq hr, nextOf_eq hr]
  split
  · exact ⟨.some ⟨rfl, rfl⟩, rfl⟩
  · have hagree := Lexicon.tokenOf?_agree hx hsame l.cursor.skipBlanks.remaining
      l.cursor.skipBlanks.place
    generalize l.lexicon.tokenOf? kinds _ _ = found at hagree ⊢
    generalize l.lexicon.tokenOf? kinds' _ _ = found' at hagree ⊢
    cases hagree with
    | none => exact ⟨.none, rfl⟩
    | some hagree =>
      dsimp only
      exact ⟨.some hagree, by rw [hagree.value]⟩

/-- **What text is taken depends on the set of kinds asked for, and grows with
it.** Take any lexer of the language with nothing handed back. If it answers
some kinds with a token, it answers all lists that have these kinds among
theirs with a token that starts with it. And lists of the same kinds, in any
order and with any repetitions, it answers both with none or both with the same
text at the same place, and is left the same. -/
theorem nextOf_widens (hl : l.lexicon = .standard) (hr : l.returned = [])
    (kinds kinds' : List TokenKind) :
    (kinds ⊆ kinds' → ∀ t, (l.nextOf kinds).1 = some t →
      ∃ u, (l.nextOf kinds').1 = some u ∧ t.value <+: u.value) ∧
    ((∀ k, k ∈ kinds ↔ k ∈ kinds') →
      Option.Rel Token.Agree (l.nextOf kinds).1 (l.nextOf kinds').1 ∧
        (l.nextOf kinds).2 = (l.nextOf kinds').2) := by
  have hx : l.lexicon.Anchored := by
    rw [hl]
    exact Lexicon.standard_anchored
  exact ⟨fun hsub t ht => nextOf_prefix hx hr hsub ht, fun hsame => nextOf_agree hx hr hsame⟩

/-- A shift that is read as an assignment when one is asked for too, and a word
that is a name or a keyword by the order of the kinds. -/
theorem nextOf_widens_shift :
    let l := (ofText .standard "\u00a0x >>=\nif".toList).after [.nextToken]
    (∃ u, (l.nextOf [.symbol .rightShiftEqual, .integer, .symbol .rightShift]).1 = some u ∧
      ">>".toList <+: u.value) ∧
    let l := l.after [.nextToken, .hasNext]
    (l.nextOf [.identifier, .keyword .if_]).1 ≠
        (l.nextOf [.keyword .if_, .identifier, .keyword .if_]).1 ∧
      (l.nextOf [.identifier, .keyword .if_]).2 =
        (l.nextOf [.keyword .if_, .identifier, .keyword .if_]).2 := by
  have hsub : [TokenKind.symbol .rightShift] ⊆
      [.symbol .rightShiftEqual, .integer, .symbol .rightShift] := by simp
  have hmem (k : TokenKind) : k ∈ [.identifier, .keyword .if_] ↔
      k ∈ [.keyword .if_, .identifier, .keyword .if_] := by simpa using Or.inr
  refine ⟨?_, ?_⟩
  · have hwide := (nextOf_widens (l := (ofText .standard "\u00a0x >>=\nif".toList).after
      [.nextToken]) (by decide +kernel) (by decide +kernel) _ _).1 hsub
    exact hwide ⟨.symbol .rightShift, ">>".toList, ⟨1, 4⟩⟩ (by decide +kernel)
  · have hsame := (nextOf_widens (l := ((ofText .standard "\u00a0x >>=\nif".toList).after
      [.nextToken]).after [.nextToken, .hasNext]) (by decide +kernel) (by decide +kernel) _ _).2
      hmem
    exact ⟨by decide +kernel, hsame.2⟩

end Lexer

end StraightLine
