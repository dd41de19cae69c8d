import StraightLine.Pattern.Automaton

/-!
# Matching — the preferred match of an automaton

All ways to match are followed at once, character by character. A thread is
one way: the state it has reached and what it has remembered. Threads stand
in order of preference; of two that reach one state at one place only the
preferred one goes on, so the work at each place is bounded by the number of
states. A thread that accepts ends all that stand behind it, and those before
it may still replace its match by their own.

A match starts as far to the left as one can: threads that start at a place
stand behind all that have started before.
-/

namespace StraightLine

/-- One way to match: the state reached, the place where it started, and the
places marked on the way, the latest first. -/
structure Thread where
  state : Nat
  start : Nat
  marks : List (Nat × Nat)
  deriving DecidableEq, Repr

/-- Where a pattern matched: the characters before it, those up to its end,
and the places marked on the way, the latest first. -/
structure Match where
  start : Nat
  stop : Nat
  marks : List (Nat × Nat)
  deriving DecidableEq, Repr

namespace Match

/-- The matched part of the text. -/
def value (m : Match) (t : Text) : Text := (t.take m.stop).drop m.start

/-- The text up to the end of the match. -/
def upToStop (m : Match) (t : Text) : Text := t.take m.stop

/-- The text after the match. -/
def rest (m : Match) (t : Text) : Text := t.drop m.stop

/-- What a group matched last; nothing when it took no part. -/
def groupValue (m : Match) (t : Text) (index : Nat) : Text :=
  match m.marks.lookup (2 * index), m.marks.lookup (2 * index + 1) with
  | some first, some last => (t.take last).drop first
  | _, _ => []

end Match

/-- A place in the text: the character before it, the number of characters
before it, and the text after it. -/
structure Spot where
  before : Option Char
  index : Nat
  ahead : Text
  deriving DecidableEq, Repr

namespace Automaton

/-- Follows threads to the states that take a character or accept, in order
of preference, dropping those that reach a state already seen at this place.
The states seen at a place carry the number of the place; the threads reached
are put in front of `reached`. The first number bounds the steps. -/
def follow (a : Automaton) (spot : Spot) :
    Nat → List Thread → Array Nat → List Thread → Array Nat × List Thread
  | 0, _, seen, reached => (seen, reached)
  | _ + 1, [], seen, reached => (seen, reached)
  | n + 1, t :: threads, seen, reached =>
    if seen.getD t.state 0 = spot.index + 1 then follow a spot n threads seen reached
    else
      let seen := seen.setIfInBounds t.state (spot.index + 1)
      match a.states[t.state]? with
      | some (.choose first second) =>
        follow a spot n ({ t with state := first } :: { t with state := second } :: threads)
          seen reached
      | some (.test look next) =>
        if look.holds spot.before spot.ahead then
          follow a spot n ({ t with state := next } :: threads) seen reached
        else follow a spot n threads seen reached
      | some (.mark slot next) =>
        follow a spot n
          (⟨next, t.start, (slot, spot.index) :: t.marks⟩ :: threads) seen reached
      | some (.take _ _) => follow a spot n threads seen (t :: reached)
      | some .accept => follow a spot n threads seen (t :: reached)
      | none => follow a spot n threads seen reached

/-- Whether a thread has matched. -/
def accepts (a : Automaton) (t : Thread) : Bool := a.states[t.state]? == some .accept

/-- The threads that take a character, with the state behind it. -/
def advance (a : Automaton) (c : Char) (threads : List Thread) : List Thread :=
  threads.filterMap fun (t : Thread) =>
    match a.states[t.state]? with
    | some (.take chars next) => if chars.holds c then some { t with state := next } else none
    | _ => none

/-- Follows the threads from a place to the end of the text. No thread starts
where there is a match already. -/
def search (a : Automaton) :
    Text → (before : Option Char) → (index : Nat) → List Thread → Array Nat → Option Match →
      Option Match
  | ahead, before, index, threads, seen, best =>
    let threads :=
      if best.isNone && (index == 0 || !a.anchored) then threads ++ [⟨a.start, index, []⟩]
      else threads
    let (seen, reached) :=
      a.follow ⟨before, index, ahead⟩ (threads.length + 2 * a.states.size + 1) threads seen []
    let reached := reached.reverse
    let best :=
      match reached.find? a.accepts with
      | some t => some ⟨t.start, index, t.marks⟩
      | none => best
    let running := reached.takeWhile fun t => !a.accepts t
    match ahead with
    | [] => best
    | c :: ahead =>
      if running.isEmpty && (best.isSome || a.anchored) then best
      else a.search ahead (some c) (index + 1) (a.advance c running) seen best

/-- The leftmost match in a text, the preferred one of those that start
there. -/
def find? (a : Automaton) (t : Text) : Option Match :=
  a.search t none 0 [] (Array.replicate a.states.size 0) none

/-- The texts of the groups of a match, in order. -/
def groupValues (a : Automaton) (m : Match) (t : Text) : List Text :=
  (List.range a.groups).map fun i => m.groupValue t (i + 1)

end Automaton

end StraightLine
