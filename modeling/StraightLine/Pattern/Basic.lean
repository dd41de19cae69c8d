import StraightLine.Pattern.CharSet
import StraightLine.Text.Basic

/-!
# Patterns — regular expressions with priorities and groups

A pattern is a regular expression whose choices are ordered: of two ways to
match, the one listed first is preferred, and a repetition prefers more
rounds (greedy) or fewer. A group remembers the part of the text that its
last use matched.

Patterns are put together by `concat`, `alternation`, `ofSet` and `repeated`,
which give every pattern a simple form: texts side by side are one text, a
choice among characters is a set, and what all branches of a choice start
with stands before it. Which automaton a pattern becomes, and how much memory
that takes, hangs on this form.
-/

namespace StraightLine

/-- A test of the place between two characters. -/
inductive Look where
  | textStart
  | textEnd
  | lineStart
  | lineEnd
  | wordBoundary
  | noWordBoundary
  | wordStart
  | wordEnd
  | wordStartHalf
  | wordEndHalf
  deriving DecidableEq, Repr

/-- Whether a place passes the test, by the character before it and the text
after it. -/
def Look.holds (l : Look) (before : Option Char) (ahead : Text) : Bool :=
  let wordBefore := before.any isWordChar
  let wordAfter := ahead.head?.any isWordChar
  match l with
  | textStart => before.isNone
  | textEnd => ahead.isEmpty
  | lineStart => before.all (· == '\n')
  | lineEnd => ahead.head?.all (· == '\n')
  | wordBoundary => wordBefore != wordAfter
  | noWordBoundary => wordBefore == wordAfter
  | wordStart => !wordBefore && wordAfter
  | wordEnd => wordBefore && !wordAfter
  | wordStartHalf => !wordBefore
  | wordEndHalf => !wordAfter

/-- A regular expression with ordered choice. Sequences and choices of more
than two parts lean to the right. -/
inductive Pattern where
  | empty
  | literal (text : Text)
  | set (chars : CharSet)
  | look (test : Look)
  | seq (first rest : Pattern)
  | alt (first rest : Pattern)
  | group (index : Nat) (body : Pattern)
  | repetition (greedy : Bool) (low : Nat) (high : Option Nat) (body : Pattern)
  deriving DecidableEq, Repr

namespace Pattern

/-- The least number of bytes in a match, where there can be one. -/
def minLength : Pattern → Option Nat
  | empty => some 0
  | literal t => some t.byteSize
  | set s => s.intervals.head?.map fun r => (Char.ofNat r.1).utf8Size
  | look _ => some 0
  | seq p q => do return (← p.minLength) + (← q.minLength)
  | alt p q => do return min (← p.minLength) (← q.minLength)
  | group _ p => p.minLength
  | repetition _ low _ p => p.minLength.map (· * low)

/-- The greatest number of bytes in a match, where there is a bound and a
match. -/
def maxLength : Pattern → Option Nat
  | empty => some 0
  | literal t => some t.byteSize
  | set s => s.intervals.getLast?.map fun r => (Char.ofNat r.2).utf8Size
  | look _ => some 0
  | seq p q => do return (← p.maxLength) + (← q.maxLength)
  | alt p q => do return max (← p.maxLength) (← q.maxLength)
  | group _ p => p.maxLength
  | repetition _ _ high p => do return (← p.maxLength) * (← high)

/-- The parts of a sequence; of any other pattern, itself. -/
def parts : Pattern → List Pattern
  | empty => []
  | seq p q => p :: q.parts
  | p => [p]

/-- The branches of a choice; of any other pattern, itself. -/
def branches : Pattern → List Pattern
  | alt p q => p :: q.branches
  | p => [p]

/-- Joins texts side by side. -/
def joinLiterals : List Pattern → List Pattern
  | [] => []
  | literal s :: ps =>
    match joinLiterals ps with
    | literal t :: qs => literal (s ++ t) :: qs
    | qs => literal s :: qs
  | p :: ps => p :: joinLiterals ps

/-- Patterns one after the other. -/
def concat (ps : List Pattern) : Pattern := chain (joinLiterals (ps.flatMap parts))
where
  /-- Parts that need no joining as a sequence. -/
  chain : List Pattern → Pattern
    | [] => empty
    | [p] => p
    | p :: ps => seq p (chain ps)

/-- A set; the set of one character is a text. -/
def ofSet (s : CharSet) : Pattern :=
  match s.only? with
  | some c => literal [c]
  | none => set s

/-- The only character that a pattern matches, when it is written as one. -/
def char? : Pattern → Option Char
  | literal [c] => some c
  | _ => none

/-- The set of a pattern that is one. -/
def set? : Pattern → Option CharSet
  | set s => some s
  | _ => none

/-- The parts that some sequences start with in common; none when one of the
patterns is no sequence. -/
def commonStart : List Pattern → List Pattern
  | [] => []
  | [seq p q] => p :: q.parts
  | seq p q :: ps => shared (p :: q.parts) (commonStart ps)
  | _ :: _ => []
where
  /-- What two lists start with in common. -/
  shared : List Pattern → List Pattern → List Pattern
    | p :: ps, q :: qs => if p = q then p :: shared ps qs else []
    | _, _ => []

/-- Branches as a choice, the preferred one first. -/
def choice : List Pattern → Pattern
  | [] => set CharSet.none
  | [p] => p
  | p :: ps => alt p (choice ps)

/-- The first of several patterns that matches. The number bounds how often
the branches can be found to start alike. -/
def alternationWithin (n : Nat) (ps : List Pattern) : Pattern :=
  let ps := ps.flatMap branches
  if ps.length ≤ 1 then choice ps
  else
    match ps.mapM char?, ps.mapM set?, commonStart ps, n with
    | some cs, _, _, _ => ofSet (CharSet.ofChars cs)
    | none, some ss, _, _ => ofSet (CharSet.unionAll ss)
    | none, none, p :: start, n + 1 =>
      let start := p :: start
      concat (start ++
        [alternationWithin n (ps.map fun p => concat (p.parts.drop start.length))])
    | none, none, _, _ => choice ps

/-- The first of several patterns that matches. -/
def alternation (ps : List Pattern) : Pattern :=
  alternationWithin (ps.flatMap parts).length ps

/-- A pattern at least `low` times, and at most `high` times where that is
given. Rounds that cannot take anything are not counted beyond the first. -/
def repeated (p : Pattern) (greedy : Bool) (low : Nat) (high : Option Nat) : Pattern :=
  let (low, high) :=
    if p.maxLength = some 0 then (min low 1, some (min (high.getD 1) 1)) else (low, high)
  if high = some 0 then empty
  else if low = 1 ∧ high = some 1 then p
  else repetition greedy low high p

/-- The number of the last group. -/
def groupCount : Pattern → Nat
  | seq p q => max p.groupCount q.groupCount
  | alt p q => max p.groupCount q.groupCount
  | group index p => max index p.groupCount
  | repetition _ _ _ p => p.groupCount
  | _ => 0

/-- Whether a pattern asks where words start or end. -/
def looksAtWords : Pattern → Bool
  | look l => !(l matches .textStart | .textEnd | .lineStart | .lineEnd)
  | seq p q => p.looksAtWords || q.looksAtWords
  | alt p q => p.looksAtWords || q.looksAtWords
  | group _ p => p.looksAtWords
  | repetition _ _ _ p => p.looksAtWords
  | _ => false

/-- Whether a pattern can match only at the start of the text, as its first
tests say. -/
def startsText : Pattern → Bool
  | look l => l = .textStart
  | seq p q => p.startsText || (p.maxLength = some 0 && q.startsText)
  | alt p q => p.startsText && q.startsText
  | group _ p => p.startsText
  | repetition _ low _ p => 0 < low && p.startsText
  | _ => false

/-- Whether a match can end only at the end of the text, as the pattern's
last tests say. -/
def endsText : Pattern → Bool
  | look l => l = .textEnd
  | seq p q => q.endsText || (q.maxLength = some 0 && p.endsText)
  | alt p q => p.endsText && q.endsText
  | group _ p => p.endsText
  | repetition _ low _ p => 0 < low && p.endsText
  | _ => false

end Pattern

end StraightLine
