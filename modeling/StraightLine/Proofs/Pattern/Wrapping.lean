import StraightLine.Pattern.Automaton
import StraightLine.Proofs.Pattern.Closing

/-!
# Wrapping — a written pattern in a group

A pattern is put into a group as it is written. Where it is a pattern on its
own, every group it opens it also closes, so the parenthesis behind it closes
the group it was put into (`readPieces_closed`), and what stands in front of
this group stays in front of all of it: **an anchor is kept**
(`anchored_of_readPieces`). A text that is no pattern on its own can close the
group itself and leave the anchor behind.
-/

namespace StraightLine

variable {t u : Text}

namespace Pattern

/-! ## Pieces -/

/-- **A reading inside a group**: that of `r`, with the group opened before
it. What has been read does not matter for where pieces end. -/
structure Inside (g : OpenGroup) (r q : Reading) : Prop where
  flags : q.flags = r.flags
  opened : ∃ front, q.opened = front ++ [g] ∧
    front.map OpenGroup.flags = r.opened.map OpenGroup.flags

variable {g : OpenGroup} {r r' q q' : Reading}

/-- A piece changes neither the flags nor the open groups. -/
theorem Inside.same (h : Inside g r q) (hr : r'.flags = r.flags ∧ r'.opened = r.opened)
    (hq : q'.flags = q.flags ∧ q'.opened = q.opened) : Inside g r' q' := by
  obtain ⟨hflags, hopened⟩ := h
  rw [← hr.1, ← hq.1] at hflags
  rw [← hr.2, ← hq.2] at hopened
  exact ⟨hflags, hopened⟩

/-- Two readings that go on behind the same construct. -/
theorem inside_of_ok {v w : Text} (h : (Except.ok (r, w) : Except PatternError _) = .ok (r', u))
    (h' : (Except.ok (q, w ++ [')']) : Except PatternError _) = .ok (q', v)) (hin : Inside g r q) :
    v = u ++ [')'] ∧ Inside g r' q' := by
  obtain ⟨rfl, rfl⟩ := Prod.mk.inj (Except.ok.inj h)
  obtain ⟨rfl, rfl⟩ := Prod.mk.inj (Except.ok.inj h')
  exact ⟨rfl, hin⟩

theorem repeatLast_same {f : Pattern → Pattern} (h : r.repeatLast f = .ok r') :
    r'.flags = r.flags ∧ r'.opened = r.opened := by
  unfold Reading.repeatLast at h
  split at h
  · split at h
    · cases h
    · obtain rfl := Except.ok.inj h
      exact ⟨rfl, rfl⟩
  · cases h

theorem Inside.openGroup (hin : Inside g r q) (i j : Option Nat) (f : Flags) :
    Inside g (r.openGroup i f) (q.openGroup j f) := by
  obtain ⟨hflags, front, hopened, hfront⟩ := hin
  refine ⟨rfl, ⟨j, q.flags, q.branches⟩ :: front, ?_, ?_⟩
  · rw [List.cons_append, ← hopened]
    rfl
  · rw [List.map_cons, hfront, hflags]
    rfl

theorem Inside.openCapture (hin : Inside g r q) : Inside g r.openCapture q.openCapture := by
  have hgroup := hin.openGroup (some (r.groups + 1)) (some (q.groups + 1)) r.flags
  refine hgroup.same ⟨rfl, rfl⟩ ?_
  rw [← hin.flags]
  exact ⟨rfl, rfl⟩

theorem Inside.closeGroup (hin : Inside g r q) (h : r.closeGroup = .ok r')
    (h' : q.closeGroup = .ok q') : Inside g r' q' := by
  obtain ⟨hflags, front, hopened, hfront⟩ := hin
  unfold Reading.closeGroup at h h'
  split at h
  · cases h
  · rename_i o opened hr
    rw [hr] at hfront
    obtain ⟨o', front, rfl, ho, hrest⟩ := List.map_eq_cons_iff.mp hfront
    rw [List.cons_append] at hopened
    rw [hopened] at h'
    obtain rfl := Except.ok.inj h
    obtain rfl := Except.ok.inj h'
    exact ⟨ho, front, rfl, hrest⟩

theorem openNamed_closed {v : Text} (hin : Inside g r q) (h : openNamed r t = .ok (r', u))
    (h' : openNamed q (t ++ [')']) = .ok (q', v)) : v = u ++ [')'] ∧ Inside g r' q' := by
  unfold openNamed at h h'
  dsimp only at h h'
  split at h
  · cases h
  · rename_i c rest hdrop
    rw [(Text.span_append hdrop [')']).2] at h'
    split at h
    · dsimp only at h'
      split at h'
      · exact inside_of_ok h h' (hin.openCapture.same ⟨rfl, rfl⟩ ⟨rfl, rfl⟩)
      · cases h'
    · cases h

theorem readOpening_closed {v : Text} (hin : Inside g r q) (h : readOpening r t = .ok (r', u))
    (h' : readOpening q (t ++ [')']) = .ok (q', v)) : v = u ++ [')'] ∧ Inside g r' q' := by
  have hflags := hin.flags
  unfold readOpening at h
  split at h
  case h_1 => exact openNamed_closed hin h h'
  case h_4 =>
    -- a name after `?<` alone, which must not be taken for a look behind
    rename_i w hequal hbang
    rw [List.cons_append, List.cons_append, readOpening] at h'
    · exact openNamed_closed hin h h'
    · exact Text.not_starts_closed (p := ['=']) (by decide) hequal
    · exact Text.not_starts_closed (p := ['!']) (by decide) hbang
  case h_8 =>
    -- flags, either for a group that starts here or for what follows
    rename_i w hnamed hequal hbang hangle hahead hnot hclose
    obtain ⟨⟨f, x⟩, hf, h⟩ := exists_of_bind_eq_ok h
    obtain ⟨hne, hf'⟩ := readFlags_closed hf
    rw [List.cons_append, readOpening, hflags, hf'] at h'
    · split at h
      · rename_i heq
        obtain ⟨rfl, rfl⟩ := Prod.mk.inj heq
        exact inside_of_ok h h' (hin.openGroup none none _)
      · rename_i hcolon heq
        obtain ⟨rfl, rfl⟩ := Prod.mk.inj heq
        obtain ⟨d, x, rfl⟩ := List.exists_cons_of_ne_nil hne
        obtain ⟨⟨f', y⟩, hy, h'⟩ := exists_of_bind_eq_ok h'
        obtain ⟨rfl, rfl⟩ := Prod.mk.inj (Except.ok.inj hy)
        split at h'
        · rename_i heq
          obtain ⟨-, hx⟩ := Prod.mk.inj heq
          exact (hcolon x (by rw [(List.cons.inj hx).1])).elim
        · rename_i heq
          obtain ⟨rfl, rfl⟩ := Prod.mk.inj heq
          exact inside_of_ok h h' ⟨rfl, hin.opened⟩
    · exact Text.not_starts_closed (p := ['P', '<']) (by decide) hnamed
    · exact Text.not_starts_closed (p := ['<', '=']) (by decide) hequal
    · exact Text.not_starts_closed (p := ['<', '!']) (by decide) hbang
    · exact Text.not_starts_closed (p := ['<']) (by decide) hangle
    · exact Text.not_starts_closed (p := ['=']) (by decide) hahead
    · exact Text.not_starts_closed (p := ['!']) (by decide) hnot
    · intro rest heq
      rcases w with - | ⟨d, w⟩
      · cases hf
      · exact hclose w (by rw [(List.cons.inj heq).1])
  case h_9 =>
    rename_i hnamed hequal hbang hangle hahead hnot hclose hquestion
    rw [readOpening] at h'
    · exact inside_of_ok h h' hin.openCapture
    · exact Text.not_starts_closed (p := ['?', 'P', '<']) (by decide) hnamed
    · exact Text.not_starts_closed (p := ['?', '<', '=']) (by decide) hequal
    · exact Text.not_starts_closed (p := ['?', '<', '!']) (by decide) hbang
    · exact Text.not_starts_closed (p := ['?', '<']) (by decide) hangle
    · exact Text.not_starts_closed (p := ['?', '=']) (by decide) hahead
    · exact Text.not_starts_closed (p := ['?', '!']) (by decide) hnot
    · exact fun rest => Text.not_starts_closed (p := ['?']) (by decide) hquestion (')' :: rest)
    · exact Text.not_starts_closed (p := ['?']) (by decide) hquestion
  all_goals cases h

theorem Inside.greed (hin : Inside g r q) (t : Text) :
    (readGreed q.flags.swapGreed (t ++ [')'])).2 = (readGreed r.flags.swapGreed t).2 ++ [')'] := by
  rw [hin.flags, readGreed_closed]

theorem repetition_closed {f f' : Pattern → Pattern} {w w' v : Text} (hin : Inside g r q)
    (hw : w' = w ++ [')']) (h : (r.repeatLast f >>= fun r => .ok (r, w)) = .ok (r', u))
    (h' : (q.repeatLast f' >>= fun q => .ok (q, w')) = .ok (q', v)) :
    v = u ++ [')'] ∧ Inside g r' q' := by
  obtain ⟨r₁, hr, h⟩ := exists_of_bind_eq_ok h
  obtain ⟨q₁, hq, h'⟩ := exists_of_bind_eq_ok h'
  rw [hw] at h'
  exact inside_of_ok h h' (hin.same (repeatLast_same hr) (repeatLast_same hq))

theorem readPiece_closed {c : Char} {v : Text} (hin : Inside g r q)
    (h : readPiece r c t = .ok (r', u)) (h' : readPiece q c (t ++ [')']) = .ok (q', v)) :
    v = u ++ [')'] ∧ Inside g r' q' := by
  have hflags := hin.flags
  unfold readPiece at h
  dsimp only at h
  split at h
  case h_1 => exact readOpening_closed hin h h'
  case h_2 =>
    change q.closeGroup.map (fun q => (q, t ++ [')'])) = .ok (q', v) at h'
    cases hr : r.closeGroup with
    | error e =>
      rw [hr] at h
      cases h
    | ok r₁ =>
      cases hq : q.closeGroup with
      | error e =>
        rw [hq] at h'
        cases h'
      | ok q₁ =>
        rw [hr] at h
        rw [hq] at h'
        exact inside_of_ok h h' (hin.closeGroup hr hq)
  case h_4 =>
    -- a bracketed set, read with a larger bound where more text follows
    obtain ⟨⟨s, d, w⟩, hs, h⟩ := exists_of_bind_eq_ok h
    obtain ⟨⟨s', d', w'⟩, hs', h'⟩ := exists_of_bind_eq_ok h'
    have hbound : 2 * (t.length + 1) ≤ 2 * ((t ++ [')']).length + 1) := by
      rw [List.length_append]
      omega
    rw [hflags, (readSet_readSetMembers_closed _).1 _ _ _ _ hs _ hbound] at hs'
    obtain ⟨-, -, rfl⟩ : s = s' ∧ d = d' ∧ w ++ [')'] = w' := by simpa using hs'
    exact inside_of_ok h h' (hin.same ⟨rfl, rfl⟩ ⟨rfl, rfl⟩)
  case h_8 =>
    -- an escape, whatever it stands for
    obtain ⟨⟨e, w⟩, he, h⟩ := exists_of_bind_eq_ok h
    obtain ⟨⟨e', w'⟩, he', h'⟩ := exists_of_bind_eq_ok h'
    rw [readEscape_closed he] at he'
    obtain ⟨rfl, rfl⟩ := Prod.mk.inj (Except.ok.inj he')
    cases e
    all_goals exact inside_of_ok h h' (hin.same ⟨rfl, rfl⟩ ⟨rfl, rfl⟩)
  case h_12 =>
    obtain ⟨⟨low, high, w⟩, hc, h⟩ := exists_of_bind_eq_ok h
    obtain ⟨⟨low', high', w'⟩, hc', h'⟩ := exists_of_bind_eq_ok h'
    rw [readCounts_closed hc] at hc'
    obtain ⟨rfl, rfl, rfl⟩ : low = low' ∧ high = high' ∧ w ++ [')'] = w' := by simpa using hc'
    exact repetition_closed hin (hin.greed w) h h'
  case h_13 =>
    rw [readPiece] at h'
    · exact inside_of_ok h h' (hin.same ⟨rfl, rfl⟩ ⟨rfl, rfl⟩)
    all_goals assumption
  case h_9 => exact repetition_closed hin (hin.greed t) h h'
  case h_10 => exact repetition_closed hin (hin.greed t) h h'
  case h_11 => exact repetition_closed hin (hin.greed t) h h'
  -- the other characters are constructs by themselves
  all_goals exact inside_of_ok h h' (hin.same ⟨rfl, rfl⟩ ⟨rfl, rfl⟩)

/-! ## Whole patterns -/

variable {p p' : Pattern}

theorem readPieces_nil (n : Nat) (r : Reading) : readPieces n r [] = r.finish := by
  cases n <;> rfl

theorem closeGroup_outermost (hq : q.opened = [g]) :
    ∃ body, q.closeGroup =
      .ok { q with opened := [], branches := g.around.push (.pattern body), flags := g.flags } := by
  rw [Reading.closeGroup, hq]
  exact ⟨_, rfl⟩

theorem eq_of_finish (h : r.finish = .ok p) : r.opened = [] ∧ p = r.branches.close.pattern := by
  unfold Reading.finish at h
  split at h
  · rename_i hopened
    dsimp only at h
    split at h
    · cases h
    · exact ⟨hopened, (Except.ok.inj h).symm⟩
  · cases h

/-- A reading at its end leaves the parenthesis to the group around it. -/
theorem finish_closed {m : Nat} (hin : Inside g r q) (h : r.finish = .ok p)
    (h' : readPieces m q [')'] = .ok p') :
    ∃ body, p' = (g.around.push (.pattern body)).close.pattern := by
  obtain ⟨-, front, hopened, hfront⟩ := hin
  rw [(eq_of_finish h).1, List.map_nil, List.map_eq_nil_iff] at hfront
  rw [hfront, List.nil_append] at hopened
  obtain ⟨body, hclose⟩ := closeGroup_outermost hopened
  rcases m with - | m
  · cases h'
  · obtain ⟨⟨q₁, v⟩, hq, h'⟩ := exists_of_bind_eq_ok h'
    change q.closeGroup.map (fun q => (q, [])) = .ok (q₁, v) at hq
    rw [hclose] at hq
    obtain ⟨rfl, rfl⟩ := Prod.mk.inj (Except.ok.inj hq)
    dsimp only at h'
    rw [readPieces_nil] at h'
    exact ⟨body, (eq_of_finish h').2⟩

/-- **A text read to its end** closes the groups it opens, whatever is around
it. -/
theorem readPieces_closed {n m : Nat} (hin : Inside g r q) (h : readPieces n r t = .ok p)
    (h' : readPieces m q (t ++ [')']) = .ok p') :
    ∃ body, p' = (g.around.push (.pattern body)).close.pattern := by
  induction n generalizing m r q t with
  | zero =>
    rcases t with - | ⟨c, t⟩
    · exact finish_closed hin h h'
    · cases h
  | succ n ih =>
    rcases t with - | ⟨c, t⟩
    · exact finish_closed hin h h'
    · rcases m with - | m
      · cases h'
      · obtain ⟨⟨r₁, u⟩, hr, h⟩ := exists_of_bind_eq_ok h
        obtain ⟨⟨q₁, v⟩, hq, h'⟩ := exists_of_bind_eq_ok h'
        obtain ⟨rfl, hin'⟩ := readPiece_closed hin hr hq
        exact ih hin' h h'

/-- What starts at the start of the text does so whatever follows. -/
theorem startsText_concat (p : Pattern) : (concat [look .textStart, p]).startsText = true := by
  have hparts : ([look .textStart, p].flatMap parts) = look .textStart :: p.parts := by
    simp [parts]
  rw [concat, hparts, joinLiterals]
  · cases joinLiterals p.parts with
    | nil => rfl
    | cons p' ps => rfl
  all_goals simp

/-- The group that a text is put into, behind an anchor. -/
def anchorGroup : OpenGroup :=
  ⟨none, Reading.start.flags, (Reading.start.push (.look .textStart) 0).branches⟩

/-- The reading inside this group, in front of the text. -/
def anchorReading : Reading := ⟨[anchorGroup], .none, Reading.start.flags, 0, []⟩

/-- Reading the anchor and the start of its group leads there. -/
theorem readPieces_anchorReading {w : Pattern}
    (h : ofText? ("^(?:".toList ++ t ++ [')']) = .ok w) :
    ∃ m, readPieces m anchorReading (t ++ [')']) = .ok w :=
  ⟨(t ++ [')']).length + 2, h⟩

end Pattern

/-- **A pattern keeps its anchor** in the group it is put into. It may have been
read up to here in any way that leaves the flags as they were and no group
open. -/
theorem Automaton.anchored_of_readPieces {a : Automaton} {r : Pattern.Reading} {n : Nat}
    {p : Pattern} (hflags : r.flags = Pattern.Reading.start.flags) (hopened : r.opened = [])
    (h : Pattern.readPieces n r t = .ok p) (ha : Automaton.ofTextAnchored? t = .ok a) :
    a.anchored = true := by
  obtain ⟨w, hw, ha⟩ := exists_of_bind_eq_ok ha
  have hanchor : a.anchored = w.startsText := by
    split at ha
    · rw [← Except.ok.inj ha]
      rfl
    · cases ha
  have hin : Pattern.Inside Pattern.anchorGroup r Pattern.anchorReading :=
    ⟨hflags.symm, [], rfl, by rw [hopened]⟩
  obtain ⟨m, hread⟩ := Pattern.readPieces_anchorReading hw
  obtain ⟨body, rfl⟩ := Pattern.readPieces_closed hin h hread
  rw [hanchor]
  exact Pattern.startsText_concat body.pattern

end StraightLine
