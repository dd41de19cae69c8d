import StraightLine.Proofs.Lexer.Layout
import StraightLine.Proofs.Text.Boundary

/-!
# Calls — what a lexer answers, whatever it is asked for

A caller works a lexer by any sequence of calls: reading tokens of the kinds
it names, looking ahead, saving positions and returning to them, and handing
tokens back. `InOrder` is what every call keeps (`perform_inOrder`): the
lexer is still on its text, and its position and all saved ones stand between
two characters, with the line and column of their offset. Hence no call cuts
the text inside a character (`perform?_eq_some`), and a token read stands
where the blanks in front of it end (`place_of_perform`).
-/

namespace StraightLine

namespace Lexer

/-! ## Calls and their answers -/

/-- What a caller can ask a lexer for. -/
inductive Call where
  | nextOf (kinds : List TokenKind)
  | expectOf (kinds : List TokenKind)
  | nextToken
  | hasNext
  | slice (n : Nat)
  | backup
  | restore
  | giveBack (t : Token)
  deriving DecidableEq, Repr

/-- What the caller is told. -/
inductive Answer where
  | found (t : Option Token)
  | expected (r : Except LexError Token)
  | whether (b : Bool)
  | text (t : Text)
  | restored (r : Except LexError Unit)
  | done
  deriving DecidableEq, Repr

/-- The token of an answer. -/
def Answer.token? : Answer → Option Token
  | found t => t
  | expected (.ok t) => some t
  | _ => none

/-- What a call answers, and the lexer it leaves. -/
def perform (l : Lexer) : Call → Answer × Lexer
  | .nextOf kinds => (.found (l.nextOf kinds).1, (l.nextOf kinds).2)
  | .expectOf kinds => (.expected (l.expectOf kinds).1, (l.expectOf kinds).2)
  | .nextToken => (.expected l.nextToken.1, l.nextToken.2)
  | .hasNext => (.whether l.hasNext.1, l.hasNext.2)
  | .slice n => (.text (l.slice n), l)
  | .backup => (.done, l.backup)
  | .restore => (.restored l.restore.1, l.restore.2)
  | .giveBack t => (.done, l.giveBack t)

/-- The lexer that some calls leave. -/
def after (l : Lexer) (calls : List Call) : Lexer :=
  calls.foldl (fun l call => (l.perform call).2) l

variable {s : Text} {l : Lexer} {kinds : List TokenKind} {t : Token}

theorem expectOf_eq_ok_iff : (l.expectOf kinds).1 = .ok t ↔ (l.nextOf kinds).1 = some t := by
  rw [expectOf]
  rcases l.nextOf kinds with ⟨- | u, l'⟩
  · simp
  · simp

theorem expectOf_snd (l : Lexer) (kinds : List TokenKind) :
    (l.expectOf kinds).2 = (l.nextOf kinds).2 := by
  rw [expectOf]
  rcases l.nextOf kinds with ⟨- | t, l'⟩
  · rfl
  · rfl

theorem nextOf_lexicon (l : Lexer) (kinds : List TokenKind) :
    (l.nextOf kinds).2.lexicon = l.lexicon := by
  unfold nextOf
  split
  · rfl
  · dsimp only
    split
    · rfl
    · split
      · rfl
      · rfl

/-- No call changes the lexicon. -/
theorem perform_lexicon (l : Lexer) (call : Call) : (l.perform call).2.lexicon = l.lexicon := by
  cases call with
  | nextOf kinds => exact nextOf_lexicon l kinds
  | expectOf kinds => exact (congrArg lexicon (expectOf_snd l kinds)).trans (nextOf_lexicon l kinds)
  | nextToken =>
    exact (congrArg lexicon (expectOf_snd l TokenKind.all)).trans (nextOf_lexicon l TokenKind.all)
  | hasNext =>
    change l.hasNext.2.lexicon = l.lexicon
    unfold hasNext
    split
    · rfl
    · rfl
  | restore =>
    change l.restore.2.lexicon = l.lexicon
    unfold restore
    split
    · rfl
    · rfl
  | _ => rfl

theorem after_lexicon (l : Lexer) (calls : List Call) : (l.after calls).lexicon = l.lexicon := by
  induction calls generalizing l with
  | nil => rfl
  | cons call calls ih => exact (ih _).trans (perform_lexicon l call)

/-! ## What every call keeps -/

/-- **A lexer in order on a text**: its position and all those saved stand
between two characters of it, and have the lines and columns of their
offsets. -/
structure InOrder (s : Text) (l : Lexer) : Prop where
  source : l.cursor.source = s
  position : l.cursor.position.InOrder s
  saved : ∀ p ∈ l.saved, p.InOrder s

theorem ofText_inOrder (x : Lexicon) (s : Text) : (ofText x s).InOrder s where
  source := rfl
  position := Cursor.between_inOrder [] s
  saved _ h := absurd h List.not_mem_nil

theorem nextOf_inOrder (h : l.InOrder s) (kinds : List TokenKind) :
    (l.nextOf kinds).2.InOrder s := by
  have ⟨hs, hc⟩ := Cursor.skipBlanks_inOrder h.source h.position
  unfold nextOf
  split
  · exact ⟨h.source, h.position, h.saved⟩
  · dsimp only
    split
    · exact ⟨hs, hc, h.saved⟩
    · split
      · rename_i t _
        have ⟨hs', hc'⟩ := Cursor.advance_inOrder hs hc t.value.byteSize
        exact ⟨hs', hc', h.saved⟩
      · exact h

theorem expectOf_inOrder (h : l.InOrder s) (kinds : List TokenKind) :
    (l.expectOf kinds).2.InOrder s := by
  rw [expectOf_snd]
  exact nextOf_inOrder h kinds

theorem hasNext_inOrder (h : l.InOrder s) : l.hasNext.2.InOrder s := by
  have ⟨hs, hc⟩ := Cursor.skipBlanks_inOrder h.source h.position
  unfold hasNext
  split
  · exact h
  · exact ⟨hs, hc, h.saved⟩

theorem backup_inOrder (h : l.InOrder s) : l.backup.InOrder s :=
  ⟨h.source, h.position, List.forall_mem_cons.mpr ⟨h.position, h.saved⟩⟩

/-- The position returned to is one of those saved. -/
theorem restore_inOrder (h : l.InOrder s) : l.restore.2.InOrder s := by
  unfold restore
  split
  · exact h
  · rename_i p saved hsaved
    obtain ⟨hp, hall⟩ := List.forall_mem_cons.mp (hsaved ▸ h.saved)
    refine ⟨h.source, ?_, hall⟩
    rw [Cursor.moveTo_position h.source hp]
    exact hp

/-- **One call** keeps a lexer in order. -/
theorem perform_inOrder (h : l.InOrder s) (call : Call) : (l.perform call).2.InOrder s := by
  cases call with
  | nextOf kinds => exact nextOf_inOrder h kinds
  | expectOf kinds => exact expectOf_inOrder h kinds
  | nextToken => exact expectOf_inOrder h TokenKind.all
  | hasNext => exact hasNext_inOrder h
  | slice n => exact h
  | backup => exact backup_inOrder h
  | restore => exact restore_inOrder h
  | giveBack t => exact ⟨h.source, h.position, h.saved⟩

/-- **So do any calls.** -/
theorem after_inOrder (h : l.InOrder s) (calls : List Call) : (l.after calls).InOrder s := by
  induction calls generalizing l with
  | nil => exact h
  | cons call calls ih => exact ih (perform_inOrder h call)

/-! ## Cuts inside a character

The calls once more, answering nothing where the text would have to be cut
inside a character. -/

/-- `nextOf`, where the text can be cut. -/
def nextOf? (l : Lexer) (kinds : List TokenKind) : Option (Option Token × Lexer) :=
  match l.returned with
  | t :: returned => some (some t, { l with returned := returned })
  | [] => do
    let c ← l.cursor.skipBlanks?
    if c.isEmpty then return (some (.endOfInput c.place), { l with cursor := c })
    match l.lexicon.tokenOf? kinds (← c.remaining?) c.place with
    | some t => return (some t, { l with cursor := ← c.advance? t.value.byteSize })
    | none => return (none, l)

/-- `missing`, where the text can be cut. -/
def missing? (l : Lexer) (kinds : List TokenKind) : Option LexError := do
  let c ← l.cursor.skipBlanks?
  return .unexpectedToken kinds (← c.slice? quoteLength) c.place

/-- `expectOf`, where the text can be cut. -/
def expectOf? (l : Lexer) (kinds : List TokenKind) : Option (Except LexError Token × Lexer) := do
  match ← l.nextOf? kinds with
  | (some t, l') => return (.ok t, l')
  | (none, l') => return (.error (← l'.missing? kinds), l')

/-- `hasNext`, where the text can be cut. -/
def hasNext? (l : Lexer) : Option (Bool × Lexer) :=
  match l.returned with
  | _ :: _ => some (true, l)
  | [] => do
    let c ← l.cursor.skipBlanks?
    return (!c.isEmpty, { l with cursor := c })

/-- `perform`, where the text can be cut. -/
def perform? (l : Lexer) : Call → Option (Answer × Lexer)
  | .nextOf kinds => do
    let (t, l') ← l.nextOf? kinds
    return (.found t, l')
  | .expectOf kinds => do
    let (r, l') ← l.expectOf? kinds
    return (.expected r, l')
  | .nextToken => do
    let (r, l') ← l.expectOf? TokenKind.all
    return (.expected r, l')
  | .hasNext => do
    let (b, l') ← l.hasNext?
    return (.whether b, l')
  | .slice n => do return (.text (← l.cursor.slice? n), l)
  | .backup => some (.done, l.backup)
  | .restore => some (.restored l.restore.1, l.restore.2)
  | .giveBack t => some (.done, l.giveBack t)

theorem nextOf?_eq_some (h : l.InOrder s) (kinds : List TokenKind) :
    l.nextOf? kinds = some (l.nextOf kinds) := by
  have hskip := Cursor.skipBlanks?_eq_some (Cursor.remaining?_eq_some h.source h.position)
  have ⟨hs, hc⟩ := Cursor.skipBlanks_inOrder h.source h.position
  have hcut := Cursor.remaining?_eq_some hs hc
  unfold nextOf? nextOf
  rcases l.returned with - | ⟨t, returned⟩
  · simp only [hskip, hcut, Option.pure_def, Option.bind_eq_bind, Option.bind_some]
    split
    · rfl
    · cases l.lexicon.tokenOf? kinds l.cursor.skipBlanks.remaining l.cursor.skipBlanks.place with
      | none => rfl
      | some t => simp only [Cursor.advance?_eq_some hcut, Option.bind_some]
  · rfl

theorem missing?_eq_some (h : l.InOrder s) (kinds : List TokenKind) :
    l.missing? kinds = some (l.missing kinds) := by
  have hskip := Cursor.skipBlanks?_eq_some (Cursor.remaining?_eq_some h.source h.position)
  have ⟨hs, hc⟩ := Cursor.skipBlanks_inOrder h.source h.position
  have hslice := Cursor.slice?_eq_some (Cursor.remaining?_eq_some hs hc) quoteLength
  rw [missing?, hskip]
  simp only [Option.pure_def, Option.bind_eq_bind, Option.bind_some, hslice]
  rfl

theorem expectOf?_eq_some (h : l.InOrder s) (kinds : List TokenKind) :
    l.expectOf? kinds = some (l.expectOf kinds) := by
  have hkept := nextOf_inOrder h kinds
  rw [expectOf?, expectOf, nextOf?_eq_some h]
  rcases hread : l.nextOf kinds with ⟨- | t, l'⟩
  · rw [hread] at hkept
    simp only [Option.pure_def, Option.bind_eq_bind, Option.bind_some, missing?_eq_some hkept]
  · rfl

theorem hasNext?_eq_some (h : l.InOrder s) : l.hasNext? = some l.hasNext := by
  have hskip := Cursor.skipBlanks?_eq_some (Cursor.remaining?_eq_some h.source h.position)
  unfold hasNext? hasNext
  rcases l.returned with - | ⟨t, returned⟩
  · simp only [hskip, Option.pure_def, Option.bind_eq_bind, Option.bind_some]
  · rfl

/-- **A lexer in order never cuts a character.** -/
theorem perform?_eq_some (h : l.InOrder s) (call : Call) :
    l.perform? call = some (l.perform call) := by
  cases call with
  | nextOf kinds => simp [perform?, perform, nextOf?_eq_some h]
  | expectOf kinds => simp [perform?, perform, expectOf?_eq_some h]
  | nextToken => simp [perform?, perform, nextToken, expectOf?_eq_some h]
  | hasNext => simp [perform?, perform, hasNext?_eq_some h]
  | slice n =>
    have hcut := Cursor.remaining?_eq_some h.source h.position
    simp [perform?, perform, slice, Cursor.slice?_eq_some hcut]
  | backup => rfl
  | restore => rfl
  | giveBack t => rfl

/-! ## Where tokens stand -/

/-- A token read stands where the blanks end, and so does the end of input. -/
theorem place_of_nextOf (h : l.InOrder s) (hr : l.returned = [])
    (ht : (l.nextOf kinds).1 = some t) :
    ∃ o, s.PastBlanks l.cursor.offset o ∧ t.place = s.placeAt o := by
  obtain ⟨before, ahead, rfl, hc⟩ := Cursor.exists_between h.source h.position
  refine ⟨(before ++ ahead.takeWhile isBlank).byteSize, ?_, ?_⟩
  · rw [hc]
    exact Text.pastBlanks_append before ahead
  · rw [Text.placeAt_pastBlanks]
    by_cases hend : ahead.trimStart = []
    · have hb := Text.trimStart_eq_nil_iff.mp hend
      rw [nextOf_eq_endOfInput hc hr kinds hb] at ht
      rw [List.takeWhile_eq_self_iff.mpr hb, ← Option.some.inj ht]
      rfl
    · rw [nextOf_eq_tokenOf? hc hr kinds hend] at ht
      split at ht
      · rename_i u htok
        obtain ⟨r, -, hrule⟩ := Lexicon.exists_rule_of_tokenOf? htok
        rw [← Option.some.inj ht]
        exact (Rule.token?_eq_some hrule).2.1
      · cases ht

/-- Whichever call reads it. -/
theorem place_of_perform (h : l.InOrder s) (hr : l.returned = []) {call : Call}
    (ht : (l.perform call).1.token? = some t) :
    ∃ o, s.PastBlanks l.cursor.offset o ∧ t.place = s.placeAt o := by
  have hexpected (kinds : List TokenKind)
      (ht : (Answer.expected (l.expectOf kinds).1).token? = some t) :
      (l.nextOf kinds).1 = some t := by
    rw [← expectOf_eq_ok_iff]
    cases hread : (l.expectOf kinds).1 with
    | error e =>
      rw [hread] at ht
      cases ht
    | ok u =>
      rw [hread] at ht
      rw [Option.some.inj ht]
  cases call with
  | nextOf kinds => exact place_of_nextOf h hr ht
  | expectOf kinds => exact place_of_nextOf h hr (hexpected kinds ht)
  | nextToken => exact place_of_nextOf h hr (hexpected TokenKind.all ht)
  | _ => cases ht

/-- **Every lexer that calls can lead to is in order.** No call on it cuts the
text inside a character, and where nothing is handed back, every token answered
has the line and column of the first character that is not blank, or of the
end. -/
theorem reached_inOrder (x : Lexicon) (s : Text) (calls : List Call) :
    let l := (ofText x s).after calls
    l.InOrder s ∧ (∀ call, l.perform? call = some (l.perform call)) ∧
      ∀ call t, l.returned = [] → (l.perform call).1.token? = some t →
        ∃ o, s.PastBlanks l.cursor.offset o ∧ t.place = s.placeAt o := by
  have h := after_inOrder (ofText_inOrder x s) calls
  exact ⟨h, fun call => perform?_eq_some h call, fun call t hr ht => place_of_perform h hr ht⟩

/-- A name on the second line, read after a character of two octets, from a
position saved in front of the line feed. -/
theorem reached_inOrder_second_line :
    ∃ o, Text.PastBlanks "'\u00e9'\n b".toList 4 o ∧
      (⟨2, 2⟩ : Place) = Text.placeAt "'\u00e9'\n b".toList o := by
  have hread := (reached_inOrder .standard "'\u00e9'\n b".toList
    [.nextOf [.char], .backup, .hasNext, .slice 2, .restore]).2.2 (.nextOf [.identifier])
    ⟨.identifier, ['b'], ⟨2, 2⟩⟩ (by decide +kernel) (by decide +kernel)
  exact hread

end Lexer

end StraightLine
