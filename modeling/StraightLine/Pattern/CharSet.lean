import StraightLine.Text.CaseFold
import StraightLine.Text.Digit
import StraightLine.Text.WordChar

/-!
# Character sets — unions of intervals

A set of characters is a list of closed intervals of code points, kept in
increasing order with a character between any two of them that the set leaves
out. Surrogates are no characters: the interval before them and the one after
them touch. A set has one such form, so two sets are equal when they hold the
same characters.
-/

namespace StraightLine

/-- A set of characters, as intervals in increasing order. -/
structure CharSet where
  intervals : List (Nat × Nat)
  deriving DecidableEq, Repr

namespace CharSet

/-- The last code point. -/
def lastCode : Nat := 0x10FFFF

/-- The code point of the following character. -/
def codeAfter (n : Nat) : Nat := if n = 0xD7FF then 0xE000 else n + 1

/-- The code point of the character before. -/
def codeBefore (n : Nat) : Nat := if n = 0xE000 then 0xD7FF else n - 1

/-- Whether a set holds a code point. -/
def hasCode (s : CharSet) (n : Nat) : Bool := inRanges s.intervals n

/-- Whether a set holds a character. -/
def holds (s : CharSet) (c : Char) : Bool := s.hasCode c.toNat

/-- Adds an interval to those of a set, joined with the ones it touches. -/
def insert (first last : Nat) : List (Nat × Nat) → List (Nat × Nat)
  | [] => [(first, last)]
  | (a, b) :: rest =>
    if codeAfter last < a then (first, last) :: (a, b) :: rest
    else if codeAfter b < first then (a, b) :: insert first last rest
    else insert (min first a) (max last b) rest

/-- The union of some intervals in any order. -/
def ofIntervals (rs : List (Nat × Nat)) : CharSet :=
  ⟨rs.foldr (fun r rest => insert r.1 r.2 rest) []⟩

/-- The set without characters. -/
def none : CharSet := ⟨[]⟩

/-- All characters. -/
def all : CharSet := ⟨[(0, lastCode)]⟩

/-- The characters from one to another. -/
def range (first last : Char) : CharSet := ⟨[(first.toNat, last.toNat)]⟩

/-- The set of one character. -/
def single (c : Char) : CharSet := range c c

/-- The set of some characters. -/
def ofChars (cs : List Char) : CharSet := ofIntervals (cs.map fun c => (c.toNat, c.toNat))

/-- The decimal digits of every script. -/
def digits : CharSet := ⟨digitRanges⟩

/-- The word characters of every script. -/
def wordChars : CharSet := ⟨wordRanges⟩

/-- The blanks. -/
def blanks : CharSet :=
  ⟨[(0x9, 0xD), (0x20, 0x20), (0x85, 0x85), (0xA0, 0xA0), (0x1680, 0x1680), (0x2000, 0x200A),
    (0x2028, 0x2029), (0x202F, 0x202F), (0x205F, 0x205F), (0x3000, 0x3000)]⟩

/-- The gaps between intervals, from a code point on. -/
def gaps (start : Nat) : List (Nat × Nat) → List (Nat × Nat)
  | [] => if start ≤ lastCode then [(start, lastCode)] else []
  | (a, b) :: rest =>
    if start < a then (start, codeBefore a) :: gaps (codeAfter b) rest
    else gaps (codeAfter b) rest

/-- Everything outside a set. -/
def complement (s : CharSet) : CharSet := ⟨gaps 0 s.intervals⟩

/-- What either set holds. -/
def union (s t : CharSet) : CharSet := ofIntervals (s.intervals ++ t.intervals)

/-- What any of some sets holds. -/
def unionAll (ss : List CharSet) : CharSet := ofIntervals (ss.flatMap intervals)

/-- What both sets hold. -/
def intersection (s t : CharSet) : CharSet := (s.complement.union t.complement).complement

/-- What the first set holds and the second one does not. -/
def difference (s t : CharSet) : CharSet := s.intersection t.complement

/-- What exactly one of two sets holds. -/
def symmetricDifference (s t : CharSet) : CharSet := (s.union t).difference (s.intersection t)

/-- A set and all characters that differ in case alone from one of its own. -/
def foldClosure (s : CharSet) : CharSet :=
  let folded := s.union (ofIntervals (foldPairs.filterMap fun (n, m) =>
    if s.hasCode n then some (m, m) else Option.none))
  folded.union (ofIntervals (foldPairs.filterMap fun (n, m) =>
    if folded.hasCode m then some (n, n) else Option.none))

/-- The only character of a set. -/
def only? (s : CharSet) : Option Char :=
  match s.intervals with
  | [(a, b)] => if a = b then some (Char.ofNat a) else Option.none
  | _ => Option.none

/-- Whether every character of a set is one of the first 128. -/
def isAscii (s : CharSet) : Bool := s.intervals.all fun r => r.2 < 0x80

end CharSet

end StraightLine
