import Mathlib.Data.List.Infix
import StraightLine.Proofs.Lexer.Requests

/-!
# Saving — a lexer that returns to where it stood

The saved positions are a stack that only `backup` and `restore` touch. Requests
of which every start has no more returns than saves never reach below what the
stack held before them (`saved_served`), so a position saved in front of them is
on top again when they have closed all that they opened, and returning to it
puts the cursor where it was. The tokens handed back are not saved: where they
are the same as before, the lexer is. And as each save leaves one position, and
each return that succeeds takes one (`count_returns`), a return fails just when
as many have succeeded as were saved: **`restore_returns`**.
-/

namespace StraightLine

namespace Lexer

variable {s : Text} {l : Lexer} {request : Request} {requests : List Request}
  {base : List Position} {p : Position}

/-- **Requests that close what they open**: every return has a save of theirs in
front of it, and no save is left without a return. -/
structure Bracketed (requests : List Request) : Prop where
  matched : ∀ front, front <+: requests →
    front.count (.call .restore) ≤ front.count (.call .backup)
  closed : requests.count (.call .restore) = requests.count (.call .backup)

/-! ## The positions below -/

/-- **What lies below is not touched**: requests whose starts return no more
often than they save, beyond the positions `top`, leave the positions below
these as they are. -/
theorem saved_served (top : List Position) (hsaved : l.saved = top ++ base)
    (hmatched : ∀ front, front <+: requests →
      front.count (.call .restore) ≤ front.count (.call .backup) + top.length) :
    ∃ top', (l.served requests).saved = top' ++ base ∧
      top'.length + requests.count (.call .restore) =
        top.length + requests.count (.call .backup) := by
  have hne : Request.call .backup ≠ .call .restore := by simp
  induction requests generalizing l top with
  | nil => exact ⟨top, hsaved, by simp⟩
  | cons request requests ih =>
    have hstep := saved_serve l request
    have hfront (front : List Request) (h : front <+: requests) :=
      hmatched (request :: front) (List.cons_prefix_cons.mpr ⟨rfl, h⟩)
    rw [hsaved] at hstep
    by_cases hbackup : request = .call .backup
    · -- one more position lies on top
      subst hbackup
      simp only [List.count_cons_self, List.count_cons_of_ne hne] at hfront ⊢
      have hless (front : List Request) (h : front <+: requests) :
          front.count (.call .restore) ≤
            front.count (.call .backup) + (l.cursor.position :: top).length := by
        have hle := hfront front h
        rw [List.length_cons]
        omega
      obtain ⟨top', hleft, hlength⟩ := ih (l.cursor.position :: top) hstep hless
      rw [List.length_cons] at hlength
      exact ⟨top', hleft, by omega⟩
    · by_cases hrestore : request = .call .restore
      · -- the return takes a position of `top`, for there must be one
        subst hrestore
        simp only [List.count_cons_self, List.count_cons_of_ne hne.symm] at hfront ⊢
        have hpos : 0 < top.length := by
          have hle := hfront [] List.nil_prefix
          rw [List.count_nil, List.count_nil] at hle
          omega
        obtain ⟨p, top, rfl⟩ := List.exists_cons_of_length_pos hpos
        have hless (front : List Request) (h : front <+: requests) :
            front.count (.call .restore) ≤ front.count (.call .backup) + top.length := by
          have hle := hfront front h
          rw [List.length_cons] at hle
          omega
        obtain ⟨top', hleft, hlength⟩ := ih top hstep hless
        rw [List.length_cons]
        exact ⟨top', hleft, by omega⟩
      · rw [if_neg hbackup, if_neg hrestore] at hstep
        simp only [List.count_cons_of_ne hbackup, List.count_cons_of_ne hrestore] at hfront ⊢
        exact ih top hstep hfront

/-- So requests that close what they open leave all saved positions as they
were. -/
theorem saved_of_bracketed (h : Bracketed requests) : (l.served requests).saved = l.saved := by
  obtain ⟨top, hleft, hlength⟩ := saved_served (l := l) [] rfl h.matched
  have hclosed := h.closed
  have htop : top.length = 0 := by
    rw [List.length_nil] at hlength
    omega
  rw [hleft, List.eq_nil_of_length_eq_zero htop, List.nil_append]

/-! ## One return -/

/-- A return with nothing saved fails and changes nothing. -/
theorem restore_of_nil (h : l.saved = []) : l.restore = (.error .nothingToRestore, l) := by
  rw [restore, h]

theorem restore_of_cons {saved : List Position} (h : l.saved = p :: saved) :
    l.restore = (.ok (), { l with cursor := l.cursor.moveTo p, saved := saved }) := by
  rw [restore, h]

/-- And it fails in no other case. -/
theorem restore_eq_error_iff : (∃ e, l.restore.1 = .error e) ↔ l.saved = [] := by
  rcases hsaved : l.saved with - | ⟨p, saved⟩
  · exact iff_of_true ⟨_, by rw [restore_of_nil hsaved]⟩ rfl
  · rw [restore_of_cons hsaved]
    simp

/-! ## Counting saves and returns -/

/-- The reply of a return that succeeds. -/
def returnedReply : Reply := .answer (.restored (.ok ()))

/-- Only a request to return is replied to so. -/
theorem eq_restore_of_reply (h : (l.serve request).1 = returnedReply) :
    request = .call .restore := by
  cases request with
  | place => cases h
  | tokenize => cases h
  | call call =>
    cases call with
    | restore => rfl
    | _ => cases h

/-- **One request**: a save adds one position, and a return that succeeds takes
one. -/
theorem count_serve (l : Lexer) (request : Request) :
    [(l.serve request).1].count returnedReply + (l.serve request).2.saved.length =
      [request].count (.call .backup) + l.saved.length := by
  have hstep := saved_serve l request
  by_cases hrestore : request = .call .restore
  · subst hrestore
    rcases hsaved : l.saved with - | ⟨p, saved⟩
    · simp [serve, perform, restore_of_nil hsaved, hsaved, returnedReply]
    · simp [serve, perform, restore_of_cons hsaved, returnedReply, Nat.add_comm]
  · have hreply : (l.serve request).1 ≠ returnedReply := fun h =>
      hrestore (eq_restore_of_reply h)
    rw [List.count_singleton, if_neg (by simpa using hreply), hstep, if_neg hrestore]
    by_cases hbackup : request = .call .backup
    · simp [hbackup, Nat.add_comm]
    · simp [hbackup]

/-- **Any requests**: the positions left are those saved less those returned
to. -/
theorem count_returns (l : Lexer) (requests : List Request) :
    (l.replies requests).count returnedReply + (l.served requests).saved.length =
      requests.count (.call .backup) + l.saved.length := by
  induction requests generalizing l with
  | nil => simp [replies]
  | cons request requests ih =>
    have hone := count_serve l request
    have hrest := ih (l.serve request).2
    rw [replies, served_cons, ← List.singleton_append, List.count_append,
      ← List.singleton_append (l := requests), List.count_append]
    omega

/-! ## Returning -/

/-- **A return behind requests that close what they open** succeeds, and puts
back the cursor and the saved positions. -/
theorem restore_of_bracketed (h : l.InOrder s) (hrequests : Bracketed requests) :
    let m := l.served (.call .backup :: requests)
    m.restore.1 = .ok () ∧ m.restore.2.cursor = l.cursor ∧ m.restore.2.saved = l.saved ∧
      m.restore.2.lexicon = l.lexicon := by
  intro m
  have hm : m.InOrder s := served_inOrder h _
  have hsaved : m.saved = l.cursor.position :: l.saved := saved_of_bracketed hrequests
  have hback : m.cursor.moveTo l.cursor.position = l.cursor := by
    refine Cursor.eq_of_position_eq ?_ (Cursor.moveTo_position hm.source h.position)
    exact hm.source.trans h.source.symm
  rw [restore_of_cons hsaved, hback]
  exact ⟨rfl, rfl, rfl, served_lexicon l _⟩

/-- **Saving and returning bracket what is done between them.** Whatever the
lexicon and the text, in every lexer that requests can lead to: a save, requests
that close what they open, and a return give back the cursor and the saved
positions, and where the tokens handed back are the same, the lexer, which
replies to all that follows as it would have. And a return fails just when as
many returns have succeeded as positions were saved, and changes nothing
then. -/
theorem restore_returns (x : Lexicon) (s : Text) (session : List Request) :
    let l := (ofText x s).served session
    (∀ requests, Bracketed requests →
      let m := l.served (.call .backup :: requests)
      m.restore.1 = .ok () ∧ m.restore.2.cursor = l.cursor ∧ m.restore.2.saved = l.saved ∧
        (m.restore.2.returned = l.returned →
          m.restore.2 = l ∧ ∀ further, m.restore.2.replies further = l.replies further)) ∧
    ((∃ e, l.restore.1 = .error e) ↔
      ((ofText x s).replies session).count (.answer (.restored (.ok ()))) =
        session.count (.call .backup)) ∧
    ∀ e, l.restore.1 = .error e → e = .nothingToRestore ∧ l.restore.2 = l := by
  intro l
  have h : l.InOrder s := served_inOrder (ofText_inOrder x s) session
  refine ⟨fun requests hrequests => ?_, ?_, fun e he => ?_⟩
  · obtain ⟨hok, hcursor, hsaved, hlexicon⟩ := restore_of_bracketed h hrequests
    refine ⟨hok, hcursor, hsaved, fun hreturned => ?_⟩
    have hsame : (l.served (.call .backup :: requests)).restore.2 = l := by
      generalize (l.served (.call .backup :: requests)).restore.2 = m at *
      obtain ⟨c, y, saved, returned⟩ := m
      obtain rfl : c = l.cursor := hcursor
      obtain rfl : y = l.lexicon := hlexicon
      obtain rfl : saved = l.saved := hsaved
      obtain rfl : returned = l.returned := hreturned
      rfl
    exact ⟨hsame, fun further => by rw [hsame]⟩
  · -- a fresh lexer has nothing saved
    have hcount : ((ofText x s).replies session).count returnedReply + l.saved.length =
        session.count (.call .backup) := count_returns (ofText x s) session
    rw [restore_eq_error_iff, ← List.length_eq_zero_iff]
    change l.saved.length = 0 ↔ ((ofText x s).replies session).count returnedReply = _
    omega
  · have hnil := restore_of_nil (restore_eq_error_iff.mp ⟨e, he⟩)
    rw [hnil] at he ⊢
    exact ⟨(Except.error.inj he).symm, rfl⟩

/-- A return from the end of the text to the second line, over a token handed
back and read again, a position saved and returned to between, and a read that
fails. -/
theorem restore_returns_from_end :
    let l := (ofText .standard "a\n\"\u00e9\" b".toList).served [.call .nextToken, .call .hasNext]
    let requests : List Request := [.call .backup, .call (.giveBack ⟨.char, ['b'], ⟨7, 7⟩⟩),
      .call .nextToken, .call .restore, .call (.expectOf [.integer]), .tokenize]
    (l.served (.call .backup :: requests)).restore.2 = l ∧
      (l.restore.1 = .error .nothingToRestore ∧ l.restore.2 = l) := by
  intro l requests
  have hrequests : Bracketed requests := by
    refine ⟨fun front hfront => ?_, by decide⟩
    have hall : ∀ front ∈ requests.inits, front.count (.call .restore) ≤
        front.count (.call .backup) := by decide
    exact hall front ((List.mem_inits front requests).mpr hfront)
  obtain ⟨hreturns, -, hfails⟩ := restore_returns .standard "a\n\"\u00e9\" b".toList
    [.call .nextToken, .call .hasNext]
  have herror : l.restore.1 = .error .nothingToRestore := by decide +kernel
  exact ⟨((hreturns requests hrequests).2.2.2 (by decide +kernel)).1, herror,
    (hfails _ herror).2⟩

end Lexer

end StraightLine
