import StraightLine.Pattern.Reader
import StraightLine.Pattern.Size

/-!
# Automata — patterns as states with ordered ways on

A pattern becomes a list of states, built from its end to its start: `emit`
is given the state that follows and puts in front of it what matches the
pattern. A state that chooses prefers its first way.

A repetition of something that takes at least one character is a loop whose
choice is met before every round. Where a round may take nothing, the choice
to go on stands behind the round, and a choice of its own stands before the
first: a round that takes nothing then leads on, and the loop is not entered
twice at one place.
-/

namespace StraightLine

/-- A state of an automaton. -/
inductive State where
  | take (chars : CharSet) (next : Nat)
  | test (look : Look) (next : Nat)
  | choose (first second : Nat)
  | mark (slot : Nat) (next : Nat)
  | accept
  deriving DecidableEq, Repr

/-- States, each with its number as its position. -/
abbrev States := Array State

namespace States

/-- Adds a state and gives its number. -/
def adding (code : States) (s : State) : Nat × States := (code.size, code.push s)

/-- Adds the choice between going on to `more` and to `less`. -/
def choice (code : States) (greedy : Bool) (more less : Nat) : Nat × States :=
  code.adding (if greedy then .choose more less else .choose less more)

/-- Adds a loop: `round` is put in front of a choice between its start and
`next`. Gives the number of the choice, the start of the round and the
states. -/
def loop (code : States) (greedy : Bool) (next : Nat) (round : Nat → States → Nat × States) :
    Nat × Nat × States :=
  let again := code.size
  let (start, code) := round again (code.push (.choose next next))
  (again, start,
    code.setIfInBounds again (if greedy then .choose start next else .choose next start))

/-- Puts so many rounds in front of a state. -/
def times (round : Nat → States → Nat × States) : Nat → Nat → States → Nat × States
  | 0, next, code => (next, code)
  | n + 1, next, code =>
    let (start, code) := round next code
    times round n start code

/-- Puts so many rounds in front of a state, each of which can be left out for
`exit` with those behind it. -/
def optionally (greedy : Bool) (exit : Nat) (round : Nat → States → Nat × States) :
    Nat → Nat → States → Nat × States
  | 0, next, code => (next, code)
  | n + 1, next, code =>
    let (start, code) := round next code
    let (choice, code) := code.choice greedy start exit
    optionally greedy exit round n choice code

end States

namespace Pattern

/-- Puts the states of a pattern in front of a state, and gives the number of
the first one. -/
def emit : Pattern → (next : Nat) → States → Nat × States
  | empty, next, code => (next, code)
  | literal t, next, code =>
    t.foldr (fun c (next, code) => code.adding (.take (.single c) next)) (next, code)
  | set s, next, code => code.adding (.take s next)
  | look l, next, code => code.adding (.test l next)
  | seq p q, next, code =>
    let (next, code) := q.emit next code
    p.emit next code
  | alt p q, next, code =>
    let (second, code) := q.emit next code
    let (first, code) := p.emit next code
    code.adding (.choose first second)
  | group i p, next, code =>
    let (next, code) := code.adding (.mark (2 * i + 1) next)
    let (next, code) := p.emit next code
    code.adding (.mark (2 * i) next)
  | repetition greedy low high p, next, code =>
    match low, high with
    | low, some high =>
      let (next, code) := States.optionally greedy next p.emit (high - low) next code
      States.times p.emit low next code
    | 0, none =>
      let (again, start, code) := code.loop greedy next p.emit
      if p.minLength.any (0 < ·) then (again, code) else code.choice greedy start next
    | low + 1, none =>
      let (_, start, code) := code.loop greedy next p.emit
      States.times p.emit low start code

end Pattern

/-- An automaton: its states, the one to start from, whether it can match at
the start of the text alone, and the number of its groups. -/
structure Automaton where
  states : States
  start : Nat
  anchored : Bool
  groups : Nat
  deriving DecidableEq, Repr

namespace Automaton

/-- The automaton of a pattern. -/
def ofPattern (p : Pattern) : Automaton :=
  let (start, states) := p.emit 0 #[.accept]
  ⟨states, start, p.startsText, p.groupCount⟩

/-- The automaton of a written pattern. -/
def ofText? (t : Text) : Except PatternError Automaton := do
  let p ← Pattern.ofText? t
  if p.fits then .ok (ofPattern p) else .error .tooLarge

/-- The automaton of a text put between `^(?:` and `)`. The text is wrapped as
it stands, so one that closes the group itself can leave the anchor. -/
def ofTextAnchored? (t : Text) : Except PatternError Automaton :=
  ofText? ("^(?:".toList ++ t ++ [')'])

end Automaton

/-- A pattern as written, and the automaton that finds it at the start of a
text. -/
structure WrittenPattern where
  text : Text
  automaton : Except PatternError Automaton

/-- The pattern of a text. -/
def WrittenPattern.ofText (t : Text) : WrittenPattern := ⟨t, Automaton.ofTextAnchored? t⟩

end StraightLine
