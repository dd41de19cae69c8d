import StraightLine.Pattern.Basic
import StraightLine.Text.Utf8
import Std.Data.HashMap

/-!
# Size — the memory of a pattern as an automaton over bytes

Patterns are limited by the memory that their automaton over UTF-8 takes,
once reading forward and once reading backward: thirty-two bytes a state,
eight more for each range of bytes of a state with several ways on, and four
for each branch of a state that chooses. Neither may take more than `limit`.

A set of characters is a set of byte sequences, given by sequences of byte
ranges. Forward, sequences share their starts, and states with the same ways
on are one state; backward, they share their ends. States to be shared are
looked up in a table with a fixed number of places, where a later state takes
the place of an earlier one, so that what is shared depends on the places.
-/

namespace StraightLine

namespace Size

/-- The most memory an automaton may take. -/
def limit : Nat := 10485760

/-- The memory of the states counted so far: their number, and the bytes that
they need beyond their own. -/
structure Tally where
  states : Nat
  extra : Nat
  deriving DecidableEq, Repr

namespace Tally

/-- The memory in bytes. -/
def bytes (t : Tally) : Nat := 32 * t.states + t.extra

/-- Counts some states, with the bytes they need beyond their own. -/
def add (t : Tally) (states extra : Nat) : Tally := ⟨t.states + states, t.extra + extra⟩

/-- The tally where it keeps within the limit. -/
def checked (t : Tally) : Option Tally := if limit < t.bytes then none else some t

end Tally

/-- A range of bytes. -/
abbrev ByteRange := Nat × Nat

/-- Where a run of characters, of whose bytes the last `n` run through all
their values except at its ends, is cut to have ends that fit: below the
multiple of 64 to the `n` that follows the start, or above the last one. -/
def cut? (first last : Nat) (n : Nat) : Option Nat :=
  let k := Nat.pow 64 n
  if first / k = last / k then none
  else if first % k ≠ 0 then some (first / k * k + k)
  else if last % k ≠ k - 1 then some (last / k * k)
  else none

/-- The first character of the second part of an interval that is too wide for
one sequence of byte ranges. -/
def division? (first last : Nat) : Option Nat :=
  match [0x80, 0x800, 0x10000].find? fun n => first < n && n ≤ last with
  | some n => some n
  | none =>
    if last < 0x80 then none
    else (cut? first last 1).or ((cut? first last 2).or (cut? first last 3))

/-- The byte sequences of an interval of characters, in increasing order. The
number bounds how often the interval is divided. -/
def sequences : Nat → Nat → Nat → List (List ByteRange)
  | 0, _, _ => []
  | n + 1, first, last =>
    if last < first then []
    else if first < 0xE000 ∧ 0xD7FF < last then
      sequences n first 0xD7FF ++ sequences n 0xE000 last
    else
      match division? first last with
      | some m => sequences n first (m - 1) ++ sequences n m last
      | none =>
        [((Utf8.encode [Char.ofNat first]).map UInt8.toNat).zip
          ((Utf8.encode [Char.ofNat last]).map UInt8.toNat)]

/-- The byte sequences of a set, in increasing order. -/
def sequencesOf (s : CharSet) : List (List ByteRange) :=
  s.intervals.flatMap fun r => sequences 40 r.1 r.2

/-- The place of a list of numbers in a table of so many places. -/
def place (places : UInt64) (key : List Nat) : UInt64 :=
  key.foldl (fun h n => (h ^^^ n.toUInt64) * 1099511628211) 14695981039346656037 % places

/-- States that can be shared, by their places: what a state is, and its
number. -/
abbrev Shared := Std.HashMap UInt64 (List Nat × Nat)

/-- States being built. -/
structure Building where
  tally : Tally
  shared : Shared

/-- A new state, which takes its place in the table. -/
def Building.fresh (b : Building) (i : UInt64) (key : List Nat) (extra : Nat) : Nat × Building :=
  (b.tally.states, ⟨b.tally.add 1 extra, b.shared.insert i (key, b.tally.states)⟩)

/-- The number of a state, which is new unless the table holds it. -/
def Building.state (b : Building) (places : UInt64) (key : List Nat) (extra : Nat) :
    Nat × Building :=
  let i := place places key
  match b.shared[i]? with
  | some (held, n) => if held = key then (n, b) else b.fresh i key extra
  | none => b.fresh i key extra

/-- The state that reads some byte sequences forward and goes on to `target`.
Sequences that start alike share their first range. The number bounds the
length of the sequences. -/
def forwardState (target : Nat) : Nat → Building → List (List ByteRange) → Nat × Building
  | 0, b, _ => (target, b)
  | _ + 1, b, [[]] => (target, b)
  | n + 1, b, seqs =>
    let ways := seqs.splitBy fun s t => s.head? == t.head?
    let (key, b) := ways.foldl
      (fun (key, b) seqs =>
        let (next, b) := forwardState target n b (seqs.map List.tail)
        match seqs.head?.bind List.head? with
        | some (first, last) => (next :: last :: first :: key, b)
        | none => (key, b))
      ([], b)
    b.state 10000 key.reverse (8 * ways.length)

/-- Counts the states of a set read forward. -/
def forwardSet (t : Tally) (s : CharSet) : Tally :=
  if s.isAscii then t.add 2 (8 * s.intervals.length)
  else (forwardState t.states 5 ⟨t.add 1 0, {}⟩ (sequencesOf s)).2.tally

/-- Counts the states of a set read backward. -/
def backwardSet (t : Tally) (s : CharSet) : Tally :=
  if s.isAscii then t.add 2 (8 * s.intervals.length)
  else
    let target := t.states + 1
    let b := (sequencesOf s).foldl
      (fun (b : Building) ranges =>
        let (_, b) := ranges.foldl
          (fun (next, b) range => b.state 1000 [next, range.1, range.2] 0) (target, b)
        { b with tally := b.tally.add 0 4 })
      (⟨t.add 2 0, {}⟩ : Building)
    b.tally

/-- The texts between those that are empty. -/
def runs (ts : List (List UInt8)) : List (List (List UInt8)) :=
  (ts.splitBy fun s t => s.isEmpty == t.isEmpty).filter fun r => !r.all List.isEmpty

/-- What follows each first byte. -/
def byFirst (ts : List (List UInt8)) : List (List (List UInt8)) :=
  (ts.filterMap List.head?).eraseDups.map fun b =>
    (ts.filter fun t => t.head? == some b).map List.tail

/-- Counts the states of a choice among texts alone, which share their starts.
A text that ends where others go on keeps its place among them: those listed
before it and those after it have states of their own. The number bounds the
length of the texts. -/
def countTexts : Nat → Tally → List (List UInt8) → Tally
  | 0, t, _ => t
  | n + 1, t, ts =>
    if ts.all List.isEmpty then t
    else
      let runs := runs ts
      let ends := (ts.filter List.isEmpty).length - ((ts.takeWhile List.isEmpty).length - 1)
      let t := runs.foldl
        (fun t run =>
          let ways := byFirst run
          (ways.foldl (countTexts n) t).add 1 (if ways.length = 1 then 0 else 8 * ways.length))
        t
      t.add 1 (4 * (runs.length + ends))

/-- Where a pattern stands in a choice: in none or in front, next, or behind
the first two. -/
inductive Role where
  | whole
  | second
  | further

/-- Counts what joins a pattern to the choice it stands in. The state that
chooses and the one behind the choice come with the second branch. -/
def Role.joined : Role → Tally → Tally
  | whole, t => t
  | second, t => t.add 2 8
  | further, t => t.add 0 4

/-- Counts so many rounds, as long as they keep within the limit. -/
def times (f : Tally → Option Tally) : Nat → Tally → Option Tally
  | 0, t => some t
  | n + 1, t =>
    match f t with
    | some t => times f n t
    | none => none

/-- The bytes of a pattern that is a text. -/
def text? : Pattern → Option (List UInt8)
  | .literal t => some (Utf8.encode t)
  | _ => none

/-- Counts the states of a pattern, read forward or backward, as long as they
keep within the limit. -/
def count (backward : Bool) : Role → Pattern → Tally → Option Tally
  | role, .empty, t => (role.joined (t.add 1 0)).checked
  | role, .literal s, t => (role.joined (t.add s.byteSize 0)).checked
  | role, .set s, t =>
    (role.joined (if backward then backwardSet t s else forwardSet t s)).checked
  | role, .look _, t => (role.joined (t.add 1 0)).checked
  | role, .seq p q, t => do
    if backward then return role.joined (← count backward .whole p (← count backward .whole q t))
    else return role.joined (← count backward .whole q (← count backward .whole p t))
  | .whole, .alt p q, t =>
    match (Pattern.alt p q).branches.mapM text? with
    | some ts =>
      let ts := if backward then ts.map List.reverse else ts
      (countTexts ((ts.map List.length).sum + 1) (t.add 1 0) ts).checked
    | none => do count backward .second q (← count backward .whole p t)
  | .second, .alt p q, t => do
    count backward .further q (Role.second.joined (← count backward .whole p t))
  | .further, .alt p q, t => do
    count backward .further q (Role.further.joined (← count backward .whole p t))
  | role, .group _ p, t => do
    if backward then return role.joined (← count backward .whole p t)
    else return role.joined ((← count backward .whole p (t.add 1 0)).add 1 0)
  | role, .repetition _ low high p, t => do
    let round := count backward .whole p
    let t ← match low, high with
      | 0, some 1 => do pure ((← round (t.add 1 8)).add 1 0)
      | 0, none =>
        if p.minLength.any (0 < ·) then round (t.add 1 8)
        else do pure ((← round t).add 3 16)
      | low, none => do pure ((← times round low t).add 1 8)
      | low, some high => do
        let t ← if low = 0 then pure (t.add 1 0) else times round low t
        if low = high then pure t
        else times (fun t => round (t.add 1 8)) (high - low) (t.add 1 0)
    return role.joined t

/-- Counts the states in front of a pattern: one where it is bound to the side
it is read from, a loop over all bytes otherwise. -/
def before (bound : Bool) : Tally := if bound then ⟨1, 0⟩ else ⟨3, 16⟩

/-- The states of the automaton that reads forward. -/
def forward (p : Pattern) : Option Tally := do
  ((← count false .whole p ((before p.startsText).add 1 0)).add 2 0).checked

/-- The states of the automaton that reads backward. -/
def backward (p : Pattern) : Option Tally := do
  ((← count true .whole p (before p.endsText)).add 1 0).checked

end Size

/-- Whether a pattern keeps within the limit of memory. -/
def Pattern.fits (p : Pattern) : Bool := (Size.forward p).isSome && (Size.backward p).isSome

end StraightLine
