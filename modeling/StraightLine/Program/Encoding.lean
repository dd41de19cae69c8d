import StraightLine.Program.Basic
import StraightLine.Token.Basic
import StraightLine.Json.Basic

/-!
# Stored forms — tokens and programs as JSON
-/

namespace StraightLine

/-- A token with its fields in the order kind, value, line, column. -/
def Token.toJson (t : Token) : Json :=
  .obj
    [("kind".toList, .ofString t.kind.name), ("value".toList, .str t.value),
      ("line".toList, .int t.place.line), ("column".toList, .int t.place.column)]

/-- An expression under the name of its kind. -/
def Expr.toJson : Expr → Json
  | .int value => .obj [("int".toList, .int value)]
  | .float value => .obj [("float".toList, .float value)]
  | .identifier name => .obj [("identifier".toList, .str name)]
  | .binary left op right =>
    .obj
      [("binary".toList, .obj
        [("left".toList, left.toJson), ("op".toList, .ofString op.name),
          ("right".toList, right.toJson)])]

/-- An assignment. -/
def Stmt.toJson (s : Stmt) : Json :=
  .obj
    [("assign".toList, .obj
      [("target".toList, .str s.target), ("op".toList, .ofString s.op.name),
        ("value".toList, s.value.toJson)])]

/-- A program. -/
def Program.toJson (p : Program) : Json :=
  .obj [("statements".toList, .arr (p.statements.map Stmt.toJson))]

end StraightLine
