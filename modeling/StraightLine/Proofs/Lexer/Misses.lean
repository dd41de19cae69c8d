import StraightLine.Proofs.Lexer.Requests
import StraightLine.Proofs.Lexer.Choice

/-!
# Misses — reads that find nothing

A reader that looks behind the blanks has moved its cursor there, and on a miss
it has to put the cursor back, offset, line and column; to say what was missing
it moves there and back again. `nextOfTurningBack` and `expectOfTurningBack`
are the reads with these moves, and on a lexer in order they come to the reads
themselves (`expectOfTurningBack_eq`). A miss is where the text goes on behind
the blanks and no rule of the kinds asked for finds a token there: what is said
of it is `Misses`, and **`misses_located`** says that this is all that a failed
read is.
-/

namespace StraightLine

/-- **Putting back** a cursor that has moved over blanks: it stands where it
stood. -/
theorem Cursor.moveTo_skipBlanks {s : Text} {c : Cursor} (hs : c.source = s)
    (hc : c.position.InOrder s) : c.skipBlanks.moveTo c.position = c := by
  have hsource : c.skipBlanks.source = s := (skipBlanks_inOrder hs hc).1
  refine eq_of_position_eq ?_ (moveTo_position hsource hc)
  exact hsource.trans hs.symm

/-- Nothing is taken for some kinds just where no rule of one of them finds a
token. -/
theorem Lexicon.tokenOf?_eq_none_iff_rules {x : Lexicon} {kinds : List TokenKind} {ahead : Text}
    {place : Place} :
    x.tokenOf? kinds ahead place = none ↔
      ∀ r ∈ x.rules, r.kind ∈ kinds → r.token? ahead place = none := by
  constructor
  · intro hnone r hr hkind
    by_contra hfound
    obtain ⟨t, ht⟩ := Option.ne_none_iff_exists'.mp hfound
    have hsome := tokenOf?_isSome hr hkind ht
    rw [hnone] at hsome
    cases hsome
  · intro hnone
    rcases htok : x.tokenOf? kinds ahead place with - | t
    · rfl
    · obtain ⟨r, hr, hwanted, ht⟩ := exists_wanted_rule htok
      cases (hnone r hr hwanted).symm.trans ht

namespace Lexer

variable {s : Text} {l : Lexer} {kinds : List TokenKind} {e : LexError}

/-! ## Reads that turn back -/

/-- `nextOf`, with the cursor moved over the blanks first and put back when
nothing is found. -/
def nextOfTurningBack (l : Lexer) (kinds : List TokenKind) : Option Token × Lexer :=
  match l.returned with
  | t :: returned => (some t, { l with returned := returned })
  | [] =>
    let start := l.cursor.position
    let c := l.cursor.skipBlanks
    if c.isEmpty then (some (.endOfInput c.place), { l with cursor := c })
    else
      match l.lexicon.tokenOf? kinds c.remaining c.place with
      | some t => (some t, { l with cursor := c.advance t.value.byteSize })
      | none => (none, { l with cursor := c.moveTo start })

/-- `expectOf`, with the cursor moved over the blanks once more to say what is
missing, and put back again. -/
def expectOfTurningBack (l : Lexer) (kinds : List TokenKind) : Except LexError Token × Lexer :=
  match l.nextOfTurningBack kinds with
  | (some t, l') => (.ok t, l')
  | (none, l') =>
    let start := l'.cursor.position
    let c := l'.cursor.skipBlanks
    (.error (.unexpectedToken kinds (c.slice quoteLength) c.place),
      { l' with cursor := c.moveTo start })

theorem nextOfTurningBack_eq (h : l.InOrder s) (kinds : List TokenKind) :
    l.nextOfTurningBack kinds = l.nextOf kinds := by
  obtain ⟨c, x, saved, returned⟩ := l
  have hback : c.skipBlanks.moveTo c.position = c := Cursor.moveTo_skipBlanks h.source h.position
  unfold nextOfTurningBack
  dsimp only
  generalize c.skipBlanks.moveTo c.position = back at hback ⊢
  obtain rfl := hback
  rfl

/-- **A read in order turns back to where it was.** -/
theorem expectOfTurningBack_eq (h : l.InOrder s) (kinds : List TokenKind) :
    l.expectOfTurningBack kinds = l.expectOf kinds := by
  have hkept := nextOf_inOrder h kinds
  rw [expectOfTurningBack, expectOf, nextOfTurningBack_eq h]
  rcases hread : l.nextOf kinds with ⟨- | t, l'⟩
  · rw [hread] at hkept
    simp only [Cursor.moveTo_skipBlanks hkept.source hkept.position]
    rfl
  · rfl

/-! ## What a miss is -/

/-- **A miss in a text**: nothing is handed back, the text goes on behind the
blanks, and no rule of the kinds asked for finds a token there. The error names
these kinds, the line and column of the first character that is not blank, and
up to ten characters from there on. -/
inductive Misses (s : Text) (l : Lexer) (kinds : List TokenKind) : LexError → Prop
  | mk {o : Nat} {c : Char} {rest : Text} (nothingBack : l.returned = [])
      (blanks : s.PastBlanks l.cursor.offset o) (ahead : s.fromByte? o = some (c :: rest))
      (unfound : ∀ r ∈ l.lexicon.rules, r.kind ∈ kinds →
        r.token? (c :: rest) (s.placeAt o) = none) :
      Misses s l kinds (.unexpectedToken kinds ((c :: rest).take 10) (s.placeAt o))

/-- A read that finds nothing leaves the lexer as it was. -/
theorem nextOf_of_none (h : (l.nextOf kinds).1 = none) : l.nextOf kinds = (none, l) := by
  unfold nextOf at h ⊢
  split at h
  · cases h
  · dsimp only at h ⊢
    split at h
    · cases h
    · rename_i hopen
      rw [if_neg hopen]
      split at h
      · cases h
      · rfl

theorem expectOf_of_none (h : (l.nextOf kinds).1 = none) :
    l.expectOf kinds = (.error (l.missing kinds), l) := by
  rw [expectOf, nextOf_of_none h]

/-- A read fails just when nothing is found, and says what is missing. -/
theorem expectOf_eq_error_iff :
    (l.expectOf kinds).1 = .error e ↔ (l.nextOf kinds).1 = none ∧ e = l.missing kinds := by
  constructor
  · intro h
    rcases hread : (l.nextOf kinds).1 with - | t
    · rw [expectOf_of_none hread] at h
      exact ⟨rfl, (Except.error.inj h).symm⟩
    · cases h.symm.trans (expectOf_eq_ok_iff.mpr hread)
  · rintro ⟨hread, rfl⟩
    rw [expectOf_of_none hread]

/-- **Where nothing is found**: in front of more than blanks, with nothing
handed back, where no rule of the kinds asked for finds a token. -/
theorem nextOf_eq_none_iff {before ahead : Text} (hc : l.cursor = .between before ahead) :
    (l.nextOf kinds).1 = none ↔
      l.returned = [] ∧ ahead.trimStart ≠ [] ∧
        ∀ r ∈ l.lexicon.rules, r.kind ∈ kinds →
          r.token? ahead.trimStart (Place.start.after (before ++ ahead.takeWhile isBlank)) =
            none := by
  rcases hr : l.returned with - | ⟨t, returned⟩
  · by_cases hend : ahead.trimStart = []
    · -- the end of input is found
      rw [nextOf_eq_endOfInput hc hr kinds (Text.trimStart_eq_nil_iff.mp hend)]
      simp [hend]
    · rw [nextOf_eq_tokenOf? hc hr kinds hend, ← Lexicon.tokenOf?_eq_none_iff_rules]
      split
      · rename_i t htok
        refine iff_of_false (Option.some_ne_none t) fun ⟨_, _, hnone⟩ => ?_
        cases htok.symm.trans hnone
      · rename_i htok
        exact iff_of_true rfl ⟨rfl, hend, htok⟩
  · simp [nextOf, hr]

/-- What is missing, told from the text ahead. -/
theorem missing_between {before ahead : Text} (hc : l.cursor = .between before ahead)
    (kinds : List TokenKind) :
    l.missing kinds = .unexpectedToken kinds (ahead.trimStart.take 10)
      (Place.start.after (before ++ ahead.takeWhile isBlank)) := by
  rw [missing, hc, Cursor.skipBlanks_between, Cursor.slice, Cursor.remaining_between]
  rfl

/-- **A read fails just at a miss.** -/
theorem expectOf_eq_error_iff_misses (h : l.InOrder s) :
    (l.expectOf kinds).1 = .error e ↔ l.Misses s kinds e := by
  obtain ⟨before, ahead, rfl, hc⟩ := Cursor.exists_between h.source h.position
  have hoffset : l.cursor.offset = before.byteSize := by
    rw [hc]
    rfl
  have hpast := Text.pastBlanks_append before ahead
  have hplace := Text.placeAt_pastBlanks before ahead
  have hcut := Text.fromByte?_pastBlanks before ahead
  rw [expectOf_eq_error_iff, nextOf_eq_none_iff hc, missing_between hc, ← hplace]
  rw [← hoffset] at hpast
  constructor
  · rintro ⟨⟨hr, hopen, hunfound⟩, rfl⟩
    obtain ⟨c, rest, heq⟩ := List.exists_cons_of_ne_nil hopen
    rw [heq] at hcut hunfound ⊢
    exact .mk hr hpast hcut hunfound
  · rintro @⟨o, c, rest, hr, hblanks, hahead, hunfound⟩
    -- the blanks end at one offset only
    obtain rfl := hblanks.eq hpast
    obtain heq : ahead.trimStart = c :: rest := Option.some.inj (hcut.symm.trans hahead)
    rw [heq]
    exact ⟨⟨hr, List.cons_ne_nil c rest, hunfound⟩, rfl⟩

/-- **A miss changes nothing and is located.** Whatever the lexicon and the
text, in every lexer that requests can lead to: a read that moves its cursor
over the blanks and puts it back comes to the read itself. One that finds
nothing, or fails, leaves the lexer as it was, offset, line, column, saved
positions and tokens handed back; and it fails just at a miss, with the error
that belongs to it. -/
theorem misses_located (x : Lexicon) (s : Text) (requests : List Request)
    (kinds : List TokenKind) :
    let l := (ofText x s).served requests
    (l.nextOfTurningBack kinds = l.nextOf kinds ∧
      l.expectOfTurningBack kinds = l.expectOf kinds) ∧
    ((l.nextOf kinds).1 = none → (l.nextOf kinds).2 = l) ∧
    (∀ e, (l.expectOf kinds).1 = .error e → (l.expectOf kinds).2 = l) ∧
    ∀ e, (l.expectOf kinds).1 = .error e ↔ l.Misses s kinds e := by
  intro l
  have h : l.InOrder s := served_inOrder (ofText_inOrder x s) requests
  refine ⟨⟨nextOfTurningBack_eq h kinds, expectOfTurningBack_eq h kinds⟩, fun hnone => ?_,
    fun e he => ?_, fun e => expectOf_eq_error_iff_misses h⟩
  · rw [nextOf_of_none hnone]
  · rw [expectOf_of_none (expectOf_eq_error_iff.mp he).1]

/-- A name is asked for where a number stands, behind a line feed and a blank of
two octets, and fewer than ten characters are left. -/
theorem misses_located_number :
    let l := (ofText .standard "x\n\u00a0 1 + y".toList).served [.call .nextToken, .call .hasNext,
      .call .backup]
    (l.nextOf [.identifier, .string]).2 = l ∧
      l.Misses "x\n\u00a0 1 + y".toList [.identifier, .string]
        (.unexpectedToken [.identifier, .string] "1 + y".toList ⟨2, 3⟩) := by
  obtain ⟨-, hnone, -, hmisses⟩ := misses_located .standard "x\n\u00a0 1 + y".toList
    [.call .nextToken, .call .hasNext, .call .backup] [.identifier, .string]
  exact ⟨hnone (by decide +kernel), (hmisses _).mp (by decide +kernel)⟩

end Lexer

end StraightLine
