import StraightLine.TokenTree.Basic
import StraightLine.Decimal.Integer

/-!
# Digraphs — token trees for drawing

A tree is written in the DOT language, its nodes numbered level by level. The
label of a node is followed by the edges to its children. Labels are quoted:
backslashes are doubled first and quotes escaped afterwards.
-/

namespace StraightLine

namespace TokenTree

/-- Doubles the backslashes of a text. -/
def doubleBackslashes (t : Text) : Text :=
  t.flatMap fun c => if c = '\\' then ['\\', '\\'] else [c]

/-- Puts a backslash before the double quotes of a text. -/
def escapeQuotes (t : Text) : Text := t.flatMap fun c => if c = '"' then ['\\', '"'] else [c]

/-- A text inside double quotes. -/
def escapeLabel (t : Text) : Text := escapeQuotes (doubleBackslashes t)

/-- What stands at a node: the kind of its token and, unless it is empty, the
value. -/
def label : Option Token → Text
  | none => "ROOT".toList
  | some t =>
    match t.value with
    | [] => t.kind.name.toList
    | c :: value => t.kind.name.toList ++ ": ".toList ++ escapeLabel (c :: value)

/-- The line of a node. -/
def labelLine (id : Nat) (token : Option Token) : Text :=
  "  ".toList ++ Text.ofNat id ++ " [label=\"".toList ++ label token ++ "\"]\n".toList

/-- The lines of `count` edges to consecutive nodes. -/
def edgeLines (id : Nat) : (next count : Nat) → Text
  | _, 0 => []
  | next, count + 1 =>
    "  ".toList ++ Text.ofNat id ++ " -> ".toList ++ Text.ofNat next ++ '\n' ::
      edgeLines id (next + 1) count

/-- The lines of the nodes of a level, which are numbered from `id` on, their
children from `next` on. -/
def levelLines : List TokenTree → (id next : Nat) → Text
  | [], _, _ => []
  | node token children :: rest, id, next =>
    labelLine id token ++ edgeLines id next children.length ++
      levelLines rest (id + 1) (next + children.length)

/-- The lines of a number of levels, the first of which is numbered from `id`
on. -/
def levelsLines : Nat → List TokenTree → (id : Nat) → Text
  | 0, _, _ => []
  | n + 1, level, id =>
    levelLines level id (id + level.length) ++
      levelsLines n (level.flatMap children) (id + level.length)

/-- A tree in the DOT language. -/
def digraph (t : TokenTree) : Text :=
  "digraph CST \x7b\n".toList ++ levelsLines t.height [t] 0 ++ "\x7d\n".toList

end TokenTree

end StraightLine
