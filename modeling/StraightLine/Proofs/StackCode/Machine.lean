import StraightLine.Decimal.Reading
import StraightLine.Proofs.Program.Evaluation
import StraightLine.Proofs.Text.Lines

/-!
# Stack machine — running code from its text

The machine knows nothing of instructions as they were generated: it reads one
line at a time, as a word and perhaps an operand, and does what the line says
to a stack and the variables. It stops where a value is missing, where the
stack is too short, and at a line it cannot read.
-/

namespace StraightLine

universe u

/-- The integer that a text writes, of any size. -/
def Text.intOf? (t : Text) : Option Int :=
  let (negative, digits) := spanSign t
  if digits.isEmpty || !digits.all Char.isDigit then none
  else if negative then some (-(digitsValue digits : Int)) else some (digitsValue digits : Int)

namespace StackMachine

/-- What a line can say. -/
inductive Command where
  | pushInt (value : Int)
  | pushFloat (written : Text)
  | load (name : Text)
  | arithmetic (op : BinaryOp)
  | store (name : Text)
  deriving DecidableEq, Repr

/-- A line that is one word. -/
def Command.ofWord? (word : Text) : Option Command :=
  if word = "add".toList then some (.arithmetic .add)
  else if word = "sub".toList then some (.arithmetic .sub)
  else if word = "mul".toList then some (.arithmetic .mult)
  else if word = "div".toList then some (.arithmetic .div)
  else if word = "rem".toList then some (.arithmetic .mod)
  else none

/-- A line of a word and an operand. -/
def Command.ofWordAnd? (word operand : Text) : Option Command :=
  if word = "push.i64".toList then operand.intOf?.map pushInt
  else if word = "push.f64".toList then some (pushFloat operand)
  else if word = "load".toList then some (load operand)
  else if word = "store".toList then some (store operand)
  else none

/-- Reads a line. -/
def Command.ofLine? (line : Text) : Option Command :=
  match Text.cutAt ' ' line with
  | [word] => ofWord? word
  | [word, operand] => ofWordAnd? word operand
  | _ => none

variable {V : Type u}

/-- Why the machine stops. -/
inductive Stop (V : Type u) where
  | failed (f : EvalFailure V)
  | underflow
  | unreadable (line : Text)
  deriving DecidableEq, Repr

/-- A stack, its top first, and the variables. -/
structure Config (V : Type u) where
  stack : List V
  vars : Variables V

namespace Config

/-- A state with one more value on the stack. -/
def push (s : Config V) (v : V) : Config V := ⟨v :: s.stack, s.vars⟩

end Config

/-- **One command**: the right operand is on top of the left one. -/
def Command.perform (D : ValueDomain V) : Command → Config V → Except (Stop V) (Config V)
  | pushInt value, s => .ok (s.push (D.ofInt value))
  | pushFloat written, s => .ok (s.push (D.ofFloat written))
  | load name, s => ((s.vars.lookup name).mapError .failed).map s.push
  -- the right operand was pushed last
  | arithmetic op, ⟨right :: left :: stack, vars⟩ =>
    ((D.apply op left right).mapError .failed).map fun v => ⟨v :: stack, vars⟩
  | arithmetic _, _ => .error .underflow
  | store name, ⟨v :: stack, vars⟩ => .ok ⟨stack, vars.set name v⟩
  | store _, _ => .error .underflow

/-- **One line.** -/
def step (D : ValueDomain V) (s : Config V) (line : Text) : Except (Stop V) (Config V) :=
  match Command.ofLine? line with
  | none => .error (.unreadable line)
  | some c => c.perform D s

/-- **A text, line by line.** -/
def run (D : ValueDomain V) (t : Text) (s : Config V) : Except (Stop V) (Config V) :=
  t.lines.foldlM (step D) s

/-- What an evaluation of the variables is for a machine with this stack. -/
def outcome (stack : List V) (r : Except (EvalFailure V) (Variables V)) :
    Except (Stop V) (Config V) :=
  match r with
  | .ok vars => .ok ⟨stack, vars⟩
  | .error f => .error (.failed f)

end StackMachine

end StraightLine
