import StraightLine.Parser.Basic
import StraightLine.StackCode.Basic

/-!
# Nodes — the results of composed parsers

A node is what a parser that is put together at run time gives back. Its text
joins the texts of its parts from left to right; an expression has its code
for a text.
-/

namespace StraightLine

/-- The result of a composed parser. -/
inductive Node where
  | empty
  | item (c : Char)
  | literal (text : Text)
  | matched (value : Text) (groups : List Text)
  | expr (e : Expr)
  | several (nodes : List Node)
  | absent
  | present (node : Node)
  | pair (first second : Node)
  | triple (first second third : Node)
  deriving Repr

namespace Node

mutual

/-- The texts of a node's parts, joined. -/
def text : Node → Text
  | empty => []
  | item c => [c]
  | literal t => t
  | matched value _ => value
  | expr e => e.code.text
  | several nodes => textOf nodes
  | absent => []
  | present node => node.text
  | pair first second => first.text ++ second.text
  | triple first second third => first.text ++ (second.text ++ third.text)

/-- The texts of some nodes, joined. -/
def textOf : List Node → Text
  | [] => []
  | n :: ns => n.text ++ textOf ns

end

end Node

end StraightLine
