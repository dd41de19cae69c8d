import StraightLine.Text.Basic

/-!
# Environment — names in a text and their values

A placeholder is a dollar sign and a name in braces. A text is cut into
placeholders and single characters from left to right, and then every
placeholder whose name has a value is replaced by it. What is put in is not
looked at again.

A variable is kept as its name, an equals sign and its value. A name that is
asked for is found where it stands in front of an equals sign, so one that
holds an equals sign itself finds the end of a value.
-/

namespace StraightLine

/-- Variables, each with its name and its value. -/
abbrev Environment := List (Text × Text)

/-- The value of a name. -/
def Environment.value? (env : Environment) (name : Text) : Option Text :=
  env.findSome? fun (n, v) => Text.after? (name ++ ['=']) (n ++ '=' :: v)

/-- A part of a text with placeholders. -/
inductive Piece where
  | char (c : Char)
  | placeholder (name : Text)
  deriving DecidableEq, Repr

namespace Piece

/-- How a piece is written. -/
def text : Piece → Text
  | char c => [c]
  | placeholder name => '$' :: '\x7b' :: (name ++ ['\x7d'])

/-- What stands for a piece. -/
def value (env : Environment) : Piece → Text
  | char c => [c]
  | placeholder name => (env.value? name).getD (placeholder name).text

/-- The name of a placeholder at the start of a text, and what follows it. -/
def name? : Text → Option (Text × Text)
  | '$' :: '\x7b' :: t =>
    match t.takeWhile (· != '\x7d'), t.dropWhile (· != '\x7d') with
    | c :: name, _ :: rest => some (c :: name, rest)
    | _, _ => none
  | _ => none

/-- The pieces of a text, at most so many. -/
def cut : Nat → Text → List Piece
  | 0, _ => []
  | _, [] => []
  | n + 1, c :: t =>
    match name? (c :: t) with
    | some (name, rest) => placeholder name :: cut n rest
    | none => char c :: cut n t

/-- The pieces of a text. -/
def ofText (t : Text) : List Piece := cut t.length t

/-- The name of a placeholder. -/
def nameOf? : Piece → Option Text
  | char _ => none
  | placeholder name => some name

end Piece

namespace Environment

/-- The names that a text has placeholders for. -/
def namesIn (t : Text) : List Text := (Piece.ofText t).filterMap Piece.nameOf?

/-- Puts values in place of placeholders. -/
def substitute (env : Environment) (t : Text) : Text := (Piece.ofText t).flatMap (Piece.value env)

end Environment

end StraightLine
