import StraightLine.Proofs.Lexer.Calls

/-!
# Lookahead — asking whether anything is left

`hasNext` moves the cursor over the blanks ahead, and a position saved behind
them can be returned to later. What a lexer reads starts at the first
character that is not blank all the same. `settled` is the lexer with its
cursor and all saved positions moved there: a call that reads tokens answers
on it as on the lexer itself and leaves lexers that settle alike
(`perform_settled`), and `hasNext` changes nothing in what a lexer settles to.
So two lexers that settle alike are told the same by the same calls, even when
one of them is asked by the way whether anything is left (`retain_answers`).
-/

namespace StraightLine

/-! ## Positions behind the blanks -/

namespace Cursor

variable {s : Text} {c : Cursor}

theorem skipBlanks_skipBlanks (hs : c.source = s) (hc : c.position.InOrder s) :
    c.skipBlanks.skipBlanks = c.skipBlanks := by
  obtain ⟨before, ahead, rfl, rfl⟩ := exists_between hs hc
  have hstop : ([] ++ ahead.trimStart).takeWhile isBlank = [] :=
    Text.takeWhile_append Text.blank_nil (Text.startsOutside_dropWhile ahead)
  rw [List.nil_append] at hstop
  rw [skipBlanks_between, skipBlanks_between, hstop, Text.trimStart_trimStart, List.append_nil]

theorem atPosition_position (hs : c.source = s) : atPosition s c.position = c :=
  eq_of_position_eq hs.symm rfl

theorem moveTo_eq_atPosition {p : Position} (hs : c.source = s) (hp : p.InOrder s) :
    c.moveTo p = atPosition s p := eq_of_position_eq hs (moveTo_position hs hp)

end Cursor

/-- The position at the first character from there on that is not blank. -/
def Position.settle (s : Text) (p : Position) : Position :=
  (Cursor.atPosition s p).skipBlanks.position

namespace Position

variable {s : Text} {p : Position}

theorem atPosition_settle (hp : p.InOrder s) :
    Cursor.atPosition s (p.settle s) = (Cursor.atPosition s p).skipBlanks :=
  Cursor.atPosition_position (Cursor.skipBlanks_inOrder (c := .atPosition s p) rfl hp).1

theorem settle_inOrder (hp : p.InOrder s) : (p.settle s).InOrder s :=
  (Cursor.skipBlanks_inOrder (c := .atPosition s p) rfl hp).2

theorem settle_settle (hp : p.InOrder s) : (p.settle s).settle s = p.settle s := by
  rw [settle, atPosition_settle hp, Cursor.skipBlanks_skipBlanks rfl hp, settle]

end Position

namespace Lexer

variable {s : Text} {l l' : Lexer} {call : Call} {calls : List Call}

/-! ## Lexers behind the blanks -/

/-- **The lexer moved over blanks**, where it stands and where it can return
to. -/
def settled (l : Lexer) : Lexer :=
  { l with
    cursor := l.cursor.skipBlanks
    saved := l.saved.map (Position.settle l.cursor.source) }

theorem settled_inOrder (h : l.InOrder s) : l.settled.InOrder s := by
  have ⟨hs, hc⟩ := Cursor.skipBlanks_inOrder h.source h.position
  refine ⟨hs, hc, fun p hp => ?_⟩
  obtain ⟨q, hq, rfl⟩ := List.mem_map.mp hp
  rw [h.source]
  exact Position.settle_inOrder (h.saved q hq)

/-- Lexers settle alike when their cursors do and their saved positions are
those of the other, moved over blanks. -/
theorem settled_mk {c c' : Cursor} {ps : List Position} (hc : c.source = s) (hc' : c'.source = s)
    (heq : c'.skipBlanks = c.skipBlanks) (hps : ∀ p ∈ ps, p.InOrder s) (x : Lexicon)
    (returned : List Token) :
    settled ⟨c', x, ps.map (Position.settle s), returned⟩ = settled ⟨c, x, ps, returned⟩ := by
  have hmap : (ps.map (Position.settle s)).map (Position.settle s) =
      ps.map (Position.settle s) := by
    rw [List.map_map]
    exact List.map_congr_left fun p hp => Position.settle_settle (hps p hp)
  simp only [settled, hc, hc', heq, hmap]

/-- So a lexer moved over blanks settles as it did, whatever is handed back to
it. -/
theorem settled_returned (h : l.InOrder s) (returned : List Token) :
    { l.settled with returned := returned }.settled =
      { l with returned := returned }.settled := by
  obtain ⟨c, x, ps, old⟩ := l
  obtain ⟨rfl, hc, hps⟩ := h
  exact settled_mk rfl (Cursor.skipBlanks_inOrder rfl hc).1 (Cursor.skipBlanks_skipBlanks rfl hc)
    hps x returned

theorem settled_settled (h : l.InOrder s) : l.settled.settled = l.settled :=
  settled_returned h l.returned

/-- What is missing is told from the first character that is not blank. -/
theorem missing_settled (h : l.InOrder s) (kinds : List TokenKind) :
    l.settled.missing kinds = l.missing kinds := by
  rw [missing, missing, settled, Cursor.skipBlanks_skipBlanks h.source h.position]

theorem missing_congr (h : l.InOrder s) (h' : l'.InOrder s) (heq : l.settled = l'.settled)
    (kinds : List TokenKind) : l.missing kinds = l'.missing kinds := by
  rw [← missing_settled h, heq, missing_settled h']

/-- A read skips the blanks first; one that finds nothing puts the cursor back in
front of them, which the settled lexer is behind. -/
theorem nextOf_settled (h : l.InOrder s) (kinds : List TokenKind) :
    (l.settled.nextOf kinds).1 = (l.nextOf kinds).1 ∧
      (l.settled.nextOf kinds).2.settled = (l.nextOf kinds).2.settled := by
  have hreturned := settled_returned h
  have hskip := Cursor.skipBlanks_skipBlanks h.source h.position
  obtain ⟨hsource, hposition⟩ := Cursor.skipBlanks_inOrder h.source h.position
  obtain ⟨c, x, ps, returned⟩ := l
  obtain ⟨rfl, -, hps⟩ := h
  cases returned with
  | cons t returned => exact ⟨rfl, hreturned returned⟩
  | nil =>
    simp only [nextOf, settled, hskip]
    split
    · -- both stand at the end
      exact ⟨rfl, settled_mk hsource hsource rfl hps x []⟩
    · split
      · -- both stand behind the token
        rename_i t _
        have hmoved := (Cursor.advance_inOrder hsource hposition t.value.byteSize).1
        exact ⟨rfl, settled_mk hmoved hmoved rfl hps x []⟩
      · exact ⟨rfl, hreturned []⟩

theorem expectOf_settled (h : l.InOrder s) (kinds : List TokenKind) :
    (l.settled.expectOf kinds).1 = (l.expectOf kinds).1 ∧
      (l.settled.expectOf kinds).2.settled = (l.expectOf kinds).2.settled := by
  obtain ⟨hanswer, hleft⟩ := nextOf_settled h kinds
  refine ⟨?_, by rw [expectOf_snd, expectOf_snd, hleft]⟩
  have hkept := nextOf_inOrder h kinds
  have hkept' := nextOf_inOrder (settled_inOrder h) kinds
  rw [expectOf, expectOf]
  rcases hread : l.nextOf kinds with ⟨answer, l₁⟩
  rcases hread' : l.settled.nextOf kinds with ⟨answer', l₂⟩
  rw [hread] at hanswer hleft hkept
  rw [hread'] at hanswer hleft hkept'
  obtain rfl : answer' = answer := hanswer
  cases answer' with
  | some t => rfl
  | none => exact congrArg Except.error (missing_congr hkept' hkept hleft kinds)

/-- **Asking whether anything is left** changes nothing in what a lexer settles
to. -/
theorem settled_hasNext (h : l.InOrder s) : l.hasNext.2.settled = l.settled := by
  obtain ⟨c, x, ps, returned⟩ := l
  obtain ⟨rfl, hc, hps⟩ := h
  cases returned with
  | cons t returned => rfl
  | nil =>
    simp only [hasNext, settled, Cursor.skipBlanks_skipBlanks rfl hc,
      (Cursor.skipBlanks_inOrder rfl hc).1]

theorem hasNext_settled (h : l.InOrder s) : l.settled.hasNext.1 = l.hasNext.1 := by
  have hskip := Cursor.skipBlanks_skipBlanks h.source h.position
  unfold hasNext
  rw [show l.settled.returned = l.returned from rfl]
  split
  · rfl
  · rw [settled, hskip]

theorem backup_settled (h : l.InOrder s) : l.settled.backup.settled = l.backup.settled := by
  obtain ⟨c, x, ps, returned⟩ := l
  obtain ⟨rfl, hc, hps⟩ := h
  have hposition : c.position.settle c.source = c.skipBlanks.position := by
    rw [Position.settle, Cursor.atPosition_position rfl]
  have hmk := settled_mk rfl (Cursor.skipBlanks_inOrder rfl hc).1
    (Cursor.skipBlanks_skipBlanks rfl hc) (List.forall_mem_cons.mpr ⟨hc, hps⟩) x returned
  rwa [List.map_cons, hposition] at hmk

theorem restore_settled (h : l.InOrder s) :
    l.settled.restore.1 = l.restore.1 ∧ l.settled.restore.2.settled = l.restore.2.settled := by
  obtain ⟨c, x, ps, returned⟩ := l
  obtain ⟨rfl, hc, hps⟩ := h
  have hsource := (Cursor.skipBlanks_inOrder rfl hc).1
  cases ps with
  | nil => exact ⟨rfl, settled_settled ⟨rfl, hc, hps⟩⟩
  | cons p ps =>
    obtain ⟨hp, hps⟩ := List.forall_mem_cons.mp hps
    have hback := Cursor.moveTo_eq_atPosition rfl hp
    have hback' := Cursor.moveTo_eq_atPosition hsource (Position.settle_inOrder hp)
    have heq : (c.skipBlanks.moveTo (p.settle c.source)).skipBlanks = (c.moveTo p).skipBlanks := by
      rw [hback, hback', Position.atPosition_settle hp, Cursor.skipBlanks_skipBlanks rfl hp]
    have hsource' : (c.skipBlanks.moveTo (p.settle c.source)).source = c.source := hsource
    exact ⟨rfl, settled_mk (c := c.moveTo p) rfl hsource' heq hps x returned⟩

/-- **One call** that reads tokens answers on the settled lexer as on the lexer
itself, and leaves lexers that settle alike. -/
theorem perform_settled (h : l.InOrder s) (hcall : ∀ n, call ≠ .slice n) :
    (l.settled.perform call).1 = (l.perform call).1 ∧
      (l.settled.perform call).2.settled = (l.perform call).2.settled := by
  cases call with
  | nextOf kinds => exact (nextOf_settled h kinds).imp_left (congrArg Answer.found)
  | expectOf kinds => exact (expectOf_settled h kinds).imp_left (congrArg Answer.expected)
  | nextToken => exact (expectOf_settled h TokenKind.all).imp_left (congrArg Answer.expected)
  | hasNext =>
    refine ⟨congrArg Answer.whether (hasNext_settled h), ?_⟩
    change l.settled.hasNext.2.settled = l.hasNext.2.settled
    rw [settled_hasNext (settled_inOrder h), settled_settled h, settled_hasNext h]
  | slice n => exact absurd rfl (hcall n)
  | backup => exact ⟨rfl, backup_settled h⟩
  | restore => exact (restore_settled h).imp_left (congrArg Answer.restored)
  | giveBack t => exact ⟨rfl, settled_returned h (t :: l.returned)⟩

/-- So lexers that settle alike answer alike and settle alike again. -/
theorem perform_congr (h : l.InOrder s) (h' : l'.InOrder s) (heq : l.settled = l'.settled)
    (hcall : ∀ n, call ≠ .slice n) :
    (l.perform call).1 = (l'.perform call).1 ∧
      (l.perform call).2.settled = (l'.perform call).2.settled := by
  obtain ⟨hanswer, hleft⟩ := perform_settled h hcall
  obtain ⟨hanswer', hleft'⟩ := perform_settled h' hcall
  rw [heq] at hanswer hleft
  exact ⟨hanswer.symm.trans hanswer', hleft.symm.trans hleft'⟩

/-! ## Runs that ask by the way -/

/-- What a lexer answers to some calls, one after the other. -/
def answers (l : Lexer) : List Call → List Answer
  | [] => []
  | call :: calls => (l.perform call).1 :: (l.perform call).2.answers calls

/-- The entries of a list at the places that are kept. -/
def retain {α : Type} (keeps : Nat → Bool) : List α → List α
  | [] => []
  | a :: as =>
    if keeps 0 then a :: retain (fun i => keeps (i + 1)) as else retain (fun i => keeps (i + 1)) as

/-- **Two runs on lexers that settle alike**, the first of which asks by the way
whether anything is left. The remaining calls are answered the same. -/
theorem retain_answers {keeps : Nat → Bool} (h : l.InOrder s) (h' : l'.InOrder s)
    (heq : l.settled = l'.settled) (hreads : ∀ n, Call.slice n ∉ calls)
    (hasks : ∀ i call, calls[i]? = some call → keeps i = false → call = .hasNext) :
    retain keeps (l.answers calls) = l'.answers (retain keeps calls) := by
  induction calls generalizing l l' keeps with
  | nil => rfl
  | cons call calls ih =>
    have hreads' (n : Nat) : Call.slice n ∉ calls := fun hn => hreads n (List.mem_cons_of_mem _ hn)
    have hcall (n : Nat) : call ≠ .slice n := fun hn => hreads n (hn ▸ List.mem_cons_self)
    have hasks' (i : Nat) (call : Call) (hi : calls[i]? = some call) :
        keeps (i + 1) = false → call = .hasNext := hasks (i + 1) call hi
    rw [answers, retain, retain]
    by_cases hkept : keeps 0 = true
    · obtain ⟨hanswer, hleft⟩ := perform_congr h h' heq hcall
      rw [if_pos hkept, if_pos hkept, answers, hanswer,
        ih (perform_inOrder h call) (perform_inOrder h' call) hleft hreads' hasks']
    · -- the call left out is one of `hasNext`
      obtain rfl := hasks 0 call rfl (Bool.eq_false_iff.mpr hkept)
      rw [if_neg hkept, if_neg hkept]
      exact ih (perform_inOrder h .hasNext) h' ((settled_hasNext h).trans heq) hreads' hasks'

/-- **What is left to give out**: a lexer with nothing handed back has something
left just when a read would not give the end of input. -/
theorem hasNext_eq_true_iff (h : l.InOrder s) (hr : l.returned = []) (kinds : List TokenKind) :
    l.hasNext.1 = true ↔ ∀ place, (l.nextOf kinds).1 ≠ some (.endOfInput place) := by
  obtain ⟨before, ahead, rfl, hc⟩ := Cursor.exists_between h.source h.position
  have hleft : l.hasNext.1 = !decide (ahead.trimStart = []) := by
    simp only [hasNext, hr, hc, Cursor.skipBlanks_between, Cursor.isEmpty_between]
  by_cases hend : ahead.trimStart = []
  · rw [hleft, decide_eq_true hend]
    refine iff_of_false Bool.false_ne_true fun hne => hne (Place.start.after (before ++ ahead)) ?_
    rw [nextOf_eq_endOfInput hc hr kinds (Text.trimStart_eq_nil_iff.mp hend)]
  · rw [hleft, decide_eq_false hend]
    refine iff_of_true rfl fun place hread => ?_
    rw [nextOf_eq_tokenOf? hc hr kinds hend] at hread
    split at hread
    · rename_i t htok
      obtain ⟨r, -, hrule⟩ := Lexicon.exists_rule_of_tokenOf? htok
      have hne := (Rule.token?_eq_some hrule).2.2.1
      rw [Option.some.inj hread] at hne
      exact hne rfl
    · cases hread

/-- **`hasNext` goes unnoticed.** Whatever the lexicon and the text, leaving out
any of the calls of `hasNext` changes no answer to the remaining calls of a
caller that reads tokens. And in every lexer that calls can lead to, with
nothing handed back, it is answered with yes just when a read of any kinds
would not give the end of input. -/
theorem hasNext_unnoticed (x : Lexicon) (s : Text) :
    (∀ calls keeps, (∀ n, Call.slice n ∉ calls) →
      (∀ i call, calls[i]? = some call → keeps i = false → call = .hasNext) →
        retain keeps ((ofText x s).answers calls) = (ofText x s).answers (retain keeps calls)) ∧
    ∀ calls kinds, let l := (ofText x s).after calls
      l.returned = [] →
        (l.hasNext.1 = true ↔ ∀ place, (l.nextOf kinds).1 ≠ some (.endOfInput place)) := by
  have h := ofText_inOrder x s
  exact ⟨fun calls keeps hreads hasks => retain_answers h h rfl hreads hasks,
    fun calls kinds hr => hasNext_eq_true_iff (after_inOrder h calls) hr kinds⟩

/-- A position saved behind a line feed that only `hasNext` has moved over, and
returned to after an error. -/
theorem hasNext_unnoticed_saved :
    let l := ofText .standard "a \n b".toList
    let calls : List Call := [.nextOf [.identifier], .hasNext, .backup, .expectOf [.integer],
      .nextToken, .hasNext, .restore]
    let keeps := fun i => decide (i ≠ 1)
    retain keeps (l.answers calls) = l.answers (retain keeps calls) ∧
      ∀ place, ((l.after calls).nextOf [.identifier]).1 ≠ some (.endOfInput place) := by
  intro l calls keeps
  obtain ⟨hanswers, hleft⟩ := hasNext_unnoticed .standard "a \n b".toList
  refine ⟨hanswers calls keeps (by simp [calls]) fun i call hi hk => ?_, ?_⟩
  · obtain rfl : i = 1 := by simpa [keeps] using hk
    exact (Option.some.inj hi).symm
  · exact (hleft calls [.identifier] (by decide +kernel)).mp (by decide +kernel)

/-- The characters ahead do show whether blanks have been moved over. -/
example : (ofText .standard " a".toList).hasNext.2.slice 1 ≠
    (ofText .standard " a".toList).slice 1 := by decide +kernel

end Lexer

end StraightLine
