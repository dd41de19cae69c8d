import StraightLine.StackCode.Basic

/-!
# Evaluation — what a program means

A value domain says what literals stand for and where the operators have a
result; a float counts by the text it is written as. A program is evaluated
statement by statement, and a compound assignment `x op= e` means
`x := x op e`.
-/

namespace StraightLine

universe u

/-- **A domain of values.** -/
structure ValueDomain (V : Type u) where
  ofInt : Int → V
  ofFloat : Text → V
  result? : BinaryOp → V → V → Option V

/-- What the variables hold. -/
abbrev Variables (V : Type u) := Text → Option V

/-- Why an evaluation stops. -/
inductive EvalFailure (V : Type u) where
  | undefined (name : Text)
  | noResult (op : BinaryOp) (left right : V)
  deriving DecidableEq, Repr

variable {V : Type u}

/-- The value of an operator application. -/
def ValueDomain.apply (D : ValueDomain V) (op : BinaryOp) (left right : V) :
    Except (EvalFailure V) V :=
  match D.result? op left right with
  | some v => .ok v
  | none => .error (.noResult op left right)

namespace Variables

/-- The value of a variable. -/
def lookup (vars : Variables V) (name : Text) : Except (EvalFailure V) V :=
  match vars name with
  | some v => .ok v
  | none => .error (.undefined name)

/-- The variables after an assignment. -/
def set (vars : Variables V) (name : Text) (v : V) : Variables V := fun x =>
  if x = name then some v else vars x

end Variables

/-- The names in an expression. -/
def Expr.names : Expr → List Text
  | .int _ => []
  | .float _ => []
  | .identifier name => [name]
  | .binary left _ right => left.names ++ right.names

/-- **The value of an expression**, operands from left to right. -/
def Expr.eval (D : ValueDomain V) (vars : Variables V) : Expr → Except (EvalFailure V) V
  | .int value => .ok (D.ofInt value)
  | .float value => .ok (D.ofFloat (Instruction.floatText value))
  | .identifier name => vars.lookup name
  | .binary left op right => do
    let l ← left.eval D vars
    let r ← right.eval D vars
    D.apply op l r

namespace Stmt

/-- The expression whose value an assignment takes up. -/
def meaning (s : Stmt) : Expr :=
  match s.op.arithmetic? with
  | some op => .binary (.identifier s.target) op s.value
  | none => s.value

/-- **One assignment.** -/
def eval (D : ValueDomain V) (vars : Variables V) (s : Stmt) :
    Except (EvalFailure V) (Variables V) := do
  let v ← s.meaning.eval D vars
  pure (vars.set s.target v)

/-- The names of an assignment. -/
def names (s : Stmt) : List Text := s.target :: s.value.names

end Stmt

namespace Program

/-- The names in a program. -/
def names (p : Program) : List Text := p.statements.flatMap Stmt.names

/-- **A program**, statement by statement. -/
def eval (D : ValueDomain V) (p : Program) (vars : Variables V) :
    Except (EvalFailure V) (Variables V) :=
  p.statements.foldlM (Stmt.eval D) vars

end Program

end StraightLine
