import StraightLine.Text.Basic

/-!
# Paths — segments between slashes

A path is absolute when it starts with a slash. Empty segments and single
dots mean nothing, except for a dot at the very start, which stands for the
directory where the path begins; two dots lead upwards and are kept. The
parent of a path is a part of its text, so what it does not drop stays as it
was written.

Nothing of this needs more than a slash and a dot. So it holds of paths that
are texts, as settings and command lines have them, and of paths that are
bytes, as the operating system has them (`PathChar`).
-/

namespace StraightLine

/-- A path as it is written. -/
abbrev Path := Text

/-- A path as the operating system has it. Its bytes need not stand for a
text. -/
abbrev RawPath := List UInt8

/-- What paths are written in: a slash divides their segments, and dots stand
for directories. -/
class PathChar (α : Type) where
  slash : α
  dot : α
  dot_ne_slash : dot ≠ slash

instance : PathChar Char := ⟨'/', '.', by decide⟩

instance : PathChar UInt8 := ⟨0x2F, 0x2E, by decide⟩

/-- What a path goes through. -/
inductive PathPart (α : Type) where
  | root
  | here
  | up
  | name (n : List α)
  deriving DecidableEq, Repr

namespace Path

open PathChar

variable {α : Type} [DecidableEq α] [PathChar α]

/-- What stands between the slashes of a path. -/
def segments (p : List α) : List (List α) := Text.cutAt slash p

/-- Segments with slashes between them. -/
def joined : List (List α) → List α
  | [] => []
  | [s] => s
  | s :: r :: ss => s ++ slash :: joined (r :: ss)

/-- Whether a path starts at the root. -/
def isAbsolute : List α → Bool
  | [] => false
  | c :: _ => c = slash

/-- Whether a path starts with a dot that stands alone. -/
def startsHere : List α → Bool
  | [] => false
  | c :: rest => c = dot && rest.head?.all (· = slash)

/-- The start of a path that no parent drops, and what follows it. -/
def opening (p : List α) : List α × List α :=
  if isAbsolute p || startsHere p then (p.take 1, p.drop 1) else ([], p)

/-- Whether a segment means nothing. -/
def isIdle (s : List α) : Bool := s = [] ∨ s = [dot]

/-- What a segment means. -/
def partOf? (s : List α) : Option (PathPart α) :=
  if isIdle s then none else if s = [dot, dot] then some .up else some (.name s)

/-- What a path goes through. -/
def parts (p : List α) : List (PathPart α) :=
  (if isAbsolute p then [.root] else if startsHere p then [.here] else []) ++
    (segments (opening p).2).filterMap partOf?

/-- Segments without the idle ones at their end. -/
def trimmed (segments : List (List α)) : List (List α) :=
  (segments.reverse.dropWhile isIdle).reverse

/-- The path to the directory that holds the last part of a path. -/
def parent? (p : List α) : Option (List α) :=
  match (trimmed (segments (opening p).2)).reverse with
  | [] => if startsHere p then some [] else none
  | _ :: before => some ((opening p).1 ++ joined (trimmed before.reverse))

/-- One path after another; an absolute one replaces what comes before it. -/
def join (base p : List α) : List α :=
  if isAbsolute p then p
  else if base = [] ∨ base.getLast? = some slash then base ++ p
  else base ++ slash :: p

/-- The name at the end of a path. -/
def fileName? (p : List α) : Option (List α) :=
  match (parts p).getLast? with
  | some (.name n) => some n
  | _ => none

/-- A name cut at its last dot. A dot at its start is part of the name. -/
def cutExtension (name : List α) : List α × Option (List α) :=
  let reversed := name.reverse
  match reversed.dropWhile (· != dot) with
  | [] => (name, none)
  | [_] => (name, none)
  | _ :: c :: before => ((c :: before).reverse, some (reversed.takeWhile (· != dot)).reverse)

/-- The name at the end of a path, without its extension. -/
def stem? (p : List α) : Option (List α) := (fileName? p).map fun n => (cutExtension n).1

/-- The extension of the name at the end of a path. -/
def extension? (p : List α) : Option (List α) := (fileName? p).bind fun n => (cutExtension n).2

end Path

end StraightLine
