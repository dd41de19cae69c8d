import StraightLine.Program.Basic
import StraightLine.Decimal.Layout
import StraightLine.Decimal.Integer

/-!
# Stack code — programs for a stack machine

A literal or a variable is pushed; an operator takes the right operand off
the stack, then the left one, and pushes its result; `store` takes a value
into a variable. Operands are lowered left to right, and a compound assignment
loads its target before its value. Code is written one instruction a line.
-/

namespace StraightLine

/-- An instruction of the stack machine. -/
inductive Instruction where
  | pushInt (value : Int)
  | pushFloat (value : Double)
  | load (name : Text)
  | arithmetic (op : BinaryOp)
  | store (name : Text)
  deriving DecidableEq, Repr

/-- A list of instructions. -/
abbrev StackCode := List Instruction

namespace Instruction

/-- Floats have an exponent below `10 ^ -4` and from `10 ^ 16` on, with a sign
only when it is negative. -/
def layout : Layout := ⟨-3, 16, false, .up⟩

/-- A float operand. -/
def floatText : Double → Text
  | .finite negative rank => layout.finite negative rank
  | .infinite true => "-inf".toList
  | .infinite false => "inf".toList
  | .notANumber => "NaN".toList

/-- The name of an operator's instruction. -/
def opcode : BinaryOp → String
  | .add => "add"
  | .sub => "sub"
  | .mult => "mul"
  | .div => "div"
  | .mod => "rem"

/-- An instruction on its line. -/
def text : Instruction → Text
  | pushInt value => "push.i64 ".toList ++ Text.ofInt value
  | pushFloat value => "push.f64 ".toList ++ floatText value
  | load name => "load ".toList ++ name
  | arithmetic op => (opcode op).toList
  | store name => "store ".toList ++ name

end Instruction

namespace StackCode

/-- The instructions, each with a line feed at its end. -/
def text (code : StackCode) : Text := code.flatMap fun i => i.text ++ ['\n']

end StackCode

/-- Lowers an expression in front of `tail`. -/
def Expr.codeOnto : Expr → StackCode → StackCode
  | .int value, tail => .pushInt value :: tail
  | .float value, tail => .pushFloat value :: tail
  | .identifier name, tail => .load name :: tail
  | .binary left op right, tail => left.codeOnto (right.codeOnto (.arithmetic op :: tail))

/-- The code that pushes the value of an expression. -/
def Expr.code (e : Expr) : StackCode := e.codeOnto []

/-- The code of an assignment. -/
def Stmt.code (s : Stmt) : StackCode :=
  match s.op.arithmetic? with
  | some op => .load s.target :: s.value.codeOnto [.arithmetic op, .store s.target]
  | none => s.value.codeOnto [.store s.target]

/-- The code of a program. -/
def Program.code (p : Program) : StackCode := p.statements.flatMap Stmt.code

end StraightLine
