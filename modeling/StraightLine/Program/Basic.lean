import StraightLine.Decimal.Double

/-!
# Programs — assignments over arithmetic expressions

A program is a list of assignments, plain or compound, of expressions over
integers, floats and names. `Expr.height` is the recursive height of a tree
and `Expr.depth` the same number found with a work list.
-/

namespace StraightLine

/-- The arithmetic operators. -/
inductive BinaryOp where
  | add | sub | mult | div | mod
  deriving DecidableEq, Repr

namespace BinaryOp

/-- Every operator. -/
def all : List BinaryOp := [.add, .sub, .mult, .div, .mod]

/-- How an operator is written. -/
def symbol : BinaryOp → String
  | .add => "+"
  | .sub => "-"
  | .mult => "*"
  | .div => "/"
  | .mod => "%"

/-- The name an operator is stored under. -/
def name : BinaryOp → String
  | .add => "add"
  | .sub => "sub"
  | .mult => "mult"
  | .div => "div"
  | .mod => "mod"

/-- The operator of a symbol. -/
def ofSymbol? (s : String) : Option BinaryOp := all.find? fun op => op.symbol == s

end BinaryOp

/-- An arithmetic expression. -/
inductive Expr where
  | int (value : Int)
  | float (value : Double)
  | identifier (name : Text)
  | binary (left : Expr) (op : BinaryOp) (right : Expr)
  deriving DecidableEq, Repr

namespace Expr

/-- The height of a tree; a leaf has one. -/
def height : Expr → Nat
  | int _ => 1
  | float _ => 1
  | identifier _ => 1
  | binary left _ right => max left.height right.height + 1

/-- The number of nodes. -/
def size : Expr → Nat
  | int _ => 1
  | float _ => 1
  | identifier _ => 1
  | binary left _ right => left.size + right.size + 1

/-- The nodes of a work list. -/
def pendingSize : List (Expr × Nat) → Nat
  | [] => 0
  | (e, _) :: rest => e.size + pendingSize rest

/-- The greatest level met while the work list is worked off, each node
entering its operands one level further down. -/
def deepest : (pending : List (Expr × Nat)) → (soFar : Nat) → Nat
  | [], soFar => soFar
  | (binary left _ right, level) :: rest, soFar =>
    deepest ((right, level + 1) :: (left, level + 1) :: rest) (max soFar level)
  | (int _, level) :: rest, soFar => deepest rest (max soFar level)
  | (float _, level) :: rest, soFar => deepest rest (max soFar level)
  | (identifier _, level) :: rest, soFar => deepest rest (max soFar level)
  termination_by pending => pendingSize pending
  decreasing_by all_goals simp [pendingSize, size]; try omega

/-- The height of a tree, found without recursion over it. -/
def depth (e : Expr) : Nat := deepest [(e, 1)] 0

end Expr

/-- Plain and compound assignment. -/
inductive AssignOp where
  | assign | addAssign | subAssign | multAssign | divAssign | modAssign
  deriving DecidableEq, Repr

namespace AssignOp

/-- Every assignment; compound ones come first, so that a longer symbol is
tried before its last character. -/
def all : List AssignOp := [.addAssign, .subAssign, .multAssign, .divAssign, .modAssign, .assign]

/-- The operator of a compound assignment. -/
def arithmetic? : AssignOp → Option BinaryOp
  | .assign => none
  | .addAssign => some .add
  | .subAssign => some .sub
  | .multAssign => some .mult
  | .divAssign => some .div
  | .modAssign => some .mod

/-- How an assignment is written. -/
def symbol : AssignOp → String
  | .assign => "="
  | .addAssign => "+="
  | .subAssign => "-="
  | .multAssign => "*="
  | .divAssign => "/="
  | .modAssign => "%="

/-- The name an assignment is stored under. -/
def name : AssignOp → String
  | .assign => "assign"
  | .addAssign => "add_assign"
  | .subAssign => "sub_assign"
  | .multAssign => "mult_assign"
  | .divAssign => "div_assign"
  | .modAssign => "mod_assign"

end AssignOp

/-- An assignment. -/
structure Stmt where
  target : Text
  op : AssignOp
  value : Expr
  deriving DecidableEq, Repr

/-- A list of assignments. -/
structure Program where
  statements : List Stmt
  deriving DecidableEq, Repr

end StraightLine
