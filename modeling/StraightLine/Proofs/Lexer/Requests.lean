import StraightLine.Proofs.Lexer.Calls

/-!
# Requests — calls, and runs among them

Besides its calls a lexer can be asked where it stands, and for all tokens that
are left at once. A run to the end of input reads one token after the other, so
it keeps what a read keeps (`readUpTo_keeps`). Hence every lexer that requests
can lead to is in order (`served_inOrder`), reads by the lexicon it was made
with, and only a call of `backup` or `restore` changes the positions it has
saved (`saved_serve`).
-/

namespace StraightLine

namespace Lexer

/-! ## Requests and their replies -/

/-- What a caller can ask for: a call, the line and column, or all remaining
tokens. -/
inductive Request where
  | call (call : Call)
  | place
  | tokenize
  deriving DecidableEq, Repr

/-- What the caller is told. -/
inductive Reply where
  | answer (a : Answer)
  | place (p : Place)
  | tokens (r : Except LexError (List Token))
  deriving DecidableEq, Repr

/-- The reply to a request, and the lexer it leaves. -/
def serve (l : Lexer) : Request → Reply × Lexer
  | .call call => (.answer (l.perform call).1, (l.perform call).2)
  | .place => (.place l.place, l)
  | .tokenize => (.tokens l.tokenize.1, l.tokenize.2)

/-- The lexer that some requests leave. -/
def served (l : Lexer) (requests : List Request) : Lexer :=
  requests.foldl (fun l request => (l.serve request).2) l

/-- The replies to some requests, one after the other. -/
def replies (l : Lexer) : List Request → List Reply
  | [] => []
  | request :: requests => (l.serve request).1 :: (l.serve request).2.replies requests

variable {s : Text} {l : Lexer} {kinds : List TokenKind}

@[simp] theorem served_nil (l : Lexer) : l.served [] = l := rfl

@[simp] theorem served_cons (l : Lexer) (request : Request) (requests : List Request) :
    l.served (request :: requests) = (l.serve request).2.served requests := rfl

/-! ## What every request keeps -/

/-- **A run keeps what a read keeps.** -/
theorem readUpTo_keeps {P : Lexer → Prop} (hread : ∀ l, P l → P l.nextToken.2) (h : P l)
    (n : Nat) : P (l.readUpTo n).lexer := by
  induction n generalizing l with
  | zero => exact h
  | succ n ih =>
    have hnext := hread l h
    rw [readUpTo]
    split
    · rename_i e l' heq
      rwa [heq] at hnext
    · rename_i t l' heq
      rw [heq] at hnext
      split
      · exact hnext
      · exact ih hnext

/-- So do all remaining tokens. -/
theorem tokenize_keeps {P : Lexer → Prop} (hread : ∀ l, P l → P l.nextToken.2) (h : P l) :
    P l.tokenize.2 := by
  have hrun : P l.run.lexer := readUpTo_keeps hread h _
  unfold tokenize
  dsimp only
  split
  · exact hrun
  · exact hrun

theorem nextToken_snd (l : Lexer) : l.nextToken.2 = (l.nextOf TokenKind.all).2 :=
  expectOf_snd l TokenKind.all

/-- **One request** keeps a lexer in order. -/
theorem serve_inOrder (h : l.InOrder s) (request : Request) : (l.serve request).2.InOrder s := by
  cases request with
  | call call => exact perform_inOrder h call
  | place => exact h
  | tokenize => exact tokenize_keeps (fun _ h => expectOf_inOrder h TokenKind.all) h

/-- **So do any requests.** -/
theorem served_inOrder (h : l.InOrder s) (requests : List Request) :
    (l.served requests).InOrder s := by
  induction requests generalizing l with
  | nil => exact h
  | cons request requests ih => exact ih (serve_inOrder h request)

/-- No request changes the lexicon. -/
theorem serve_lexicon (l : Lexer) (request : Request) :
    (l.serve request).2.lexicon = l.lexicon := by
  cases request with
  | call call => exact perform_lexicon l call
  | place => rfl
  | tokenize =>
    refine tokenize_keeps (P := fun m => m.lexicon = l.lexicon) (fun m hm => ?_) rfl
    rw [nextToken_snd, nextOf_lexicon, hm]

theorem served_lexicon (l : Lexer) (requests : List Request) :
    (l.served requests).lexicon = l.lexicon := by
  induction requests generalizing l with
  | nil => rfl
  | cons request requests ih => exact (ih _).trans (serve_lexicon l request)

/-- A read changes no saved position. -/
theorem nextOf_saved (l : Lexer) (kinds : List TokenKind) :
    (l.nextOf kinds).2.saved = l.saved := by
  unfold nextOf
  split
  · rfl
  · dsimp only
    split
    · rfl
    · split
      · rfl
      · rfl

/-- **What a request does to the saved positions**: `backup` adds the one where
the lexer stands, `restore` drops the last one, and no other changes them. -/
theorem saved_serve (l : Lexer) (request : Request) :
    (l.serve request).2.saved =
      if request = .call .backup then l.cursor.position :: l.saved
      else if request = .call .restore then l.saved.tail
      else l.saved := by
  have hread (m : Lexer) : m.nextToken.2.saved = m.saved := by
    rw [nextToken_snd, nextOf_saved]
  cases request with
  | place => rfl
  | tokenize =>
    exact tokenize_keeps (P := fun m => m.saved = l.saved) (fun m hm => (hread m).trans hm) rfl
  | call call =>
    cases call with
    | nextOf kinds => exact nextOf_saved l kinds
    | expectOf kinds => exact (congrArg saved (expectOf_snd l kinds)).trans (nextOf_saved l kinds)
    | nextToken => exact hread l
    | hasNext =>
      change l.hasNext.2.saved = l.saved
      unfold hasNext
      split
      · rfl
      · rfl
    | restore =>
      change l.restore.2.saved = l.saved.tail
      unfold restore
      split
      · rename_i hnone
        rw [hnone, List.tail_nil]
      · rename_i p saved hsome
        rw [hsome, List.tail_cons]
    | _ => rfl

end Lexer

end StraightLine
