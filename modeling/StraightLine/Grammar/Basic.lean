import StraightLine.Parser.Basic
import StraightLine.Token.Kind

/-!
# Grammar — expressions, statements and programs

    program := stmt* end
    stmt    := name assignment expr ';'
    expr    := term (('+' | '-') term)*
    term    := factor (('*' | '/' | '%') factor)*
    factor  := float | integer | name | '(' expr ')'

Blanks may stand around every token, and operators of one level associate to
the left. Parentheses nest at most `maxNesting` deep and a tree is at most
`maxHeight` high; what exceeds a limit fails as too deep, while any other
failure of a right operand leaves its operator unread.
-/

namespace StraightLine

namespace Grammar

/-- How deep parentheses may nest. -/
def maxNesting : Nat := 128

/-- How high an expression may be. -/
def maxHeight : Nat := 1024

/-- The operators of an expression. -/
def additive : List BinaryOp := [.add, .sub]

/-- The operators of a term. -/
def multiplicative : List BinaryOp := [.mult, .div, .mod]

/-- A fixed text with blanks around it. -/
def token (symbol : String) : Parser Text := .skipBlanks (.literal symbol.toList)

/-- Whether a name spells a keyword. -/
def isReserved (name : Text) : Bool := Keyword.all.any fun k => k.spelling.toList == name

/-- A name that is no keyword. -/
def identifier : Parser Text :=
  .test (.skipBlanks (.lexeme Text.nameLexeme? "Invalid identifier")) (fun n => !isReserved n)
    "Reserved word used as identifier".toList

/-- One of some operators. -/
def operator (ops : List BinaryOp) : Parser BinaryOp :=
  .oneOf (ops.map fun op => .map (fun _ => op) (token op.symbol))

/-- An assignment sign. -/
def assignment : Parser AssignOp :=
  .oneOf (AssignOp.all.map fun op => .map (fun _ => op) (token op.symbol))

/-- Adds operators and their right operands to a tree whose depth is known.
The number bounds the operators; as each of them makes the tree higher, the
limit on its height is enough. -/
def chain (operand : Parser Expr) (operator : Parser BinaryOp) :
    Nat → Expr → (depth : Nat) → Parser Expr
  | 0, tree, _, t => .ok (tree, t)
  | n + 1, tree, depth, t =>
    match operator t with
    | .error _ => .ok (tree, t)
    | .ok (op, ahead) =>
      match operand ahead with
      | .error (.tooDeep limit) => .error (.tooDeep limit)
      | .error _ => .ok (tree, t)
      | .ok (right, rest) =>
        let depth := max depth right.depth + 1
        if maxHeight < depth then .error (.tooDeep maxHeight)
        else chain operand operator n (.binary tree op right) depth rest

/-- Operands joined by operators, to the left. -/
def leftAssoc (operand : Parser Expr) (ops : List BinaryOp) : Parser Expr := fun t =>
  match operand t with
  | .error e => .error e
  | .ok (head, rest) => chain operand (operator ops) maxHeight head head.depth rest

/-- A factor; `nested` reads what stands between parentheses. -/
def factorOf (nested : Parser Expr) : Parser Expr :=
  .oneOf
    [.skipBlanks .decimal, .skipBlanks .integer, .map .identifier identifier,
      .map (fun r => r.2.1) (.triple (token "(") nested (token ")"))]

/-- A term over given nested expressions. -/
def termOf (nested : Parser Expr) : Parser Expr := leftAssoc (factorOf nested) multiplicative

/-- What stands between parentheses of which `levels` may still be opened:
beyond the last nothing is read. -/
def nestedAt : (levels : Nat) → Parser Expr
  | 0 => fun _ => .error (.tooDeep maxNesting)
  | levels + 1 => leftAssoc (termOf (nestedAt levels)) additive

/-- A factor. -/
def factor : Parser Expr := factorOf (nestedAt maxNesting)

/-- A term. -/
def term : Parser Expr := termOf (nestedAt maxNesting)

/-- An expression. -/
def expr : Parser Expr := leftAssoc term additive

/-- A statement. -/
def stmt : Parser Stmt :=
  .map (fun r => ⟨r.1.1, r.1.2.1, r.1.2.2⟩)
    (.pair (.triple identifier assignment expr) (token ";"))

/-- Statements up to the end of input. -/
def program : Parser Program :=
  .map (fun r => ⟨r.1⟩) (.pair (.zeroOrMore stmt) (.skipBlanks .endOfInput))

end Grammar

/-- The place in a text where its last part `rest` starts. -/
def Text.placeOfRest (t rest : Text) : Place :=
  Place.start.after (t.take (t.length - rest.length))

/-- Reads a text that is one expression. -/
def parseExpr (source : Text) : Except ParseError Expr :=
  match Grammar.expr source with
  | .error e => .error e
  | .ok (e, rest) =>
    match rest.trimStart with
    | [] => .ok e
    | c :: trailing =>
      .error (.trailingInput (source.placeOfRest (c :: trailing))
        (ParseError.quote (c :: trailing)))

namespace Grammar

/-- Reads statements up to the end of the source, at most as many as the
number says; the characters left are always enough. -/
def statements (source : Text) : Nat → Text → Except ParseError (List Stmt)
  | 0, _ => .ok []
  | n + 1, t =>
    match t.trimStart with
    | [] => .ok []
    | c :: upcoming =>
      match stmt t with
      | .error cause =>
        .error (.invalidStatement (source.placeOfRest (c :: upcoming))
          (ParseError.quote (c :: upcoming)) cause)
      | .ok (s, rest) =>
        match statements source n rest with
        | .error e => .error e
        | .ok ss => .ok (s :: ss)

end Grammar

/-- Reads a program, reporting the first statement that fails. -/
def parseProgram (source : Text) : Except ParseError Program :=
  match Grammar.statements source source.length source with
  | .error e => .error e
  | .ok statements => .ok ⟨statements⟩

end StraightLine
