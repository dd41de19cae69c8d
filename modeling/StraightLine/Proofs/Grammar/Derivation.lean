import Mathlib.Algebra.Group.Int.Defs
import StraightLine.Grammar.Basic
import StraightLine.Proofs.Lexeme.Literal

/-!
# Derivations — the grammar as a relation on texts

    program := stmt* end
    stmt    := name assignment expr ';'
    expr    := term (('+' | '-') term)*
    term    := factor (('*' | '/' | '%') factor)*
    factor  := float | integer | name | '(' expr ')'

`Derives p n s e` says that the text `s` is a phrase `p` which stands for the
tree `e` and whose parentheses nest at most `n` deep. Blanks may stand on
both sides of every token, and it is left open to which of two tokens those
between them belong. Nothing here says in which order alternatives are tried
or how far a lexeme goes.
-/

namespace StraightLine

namespace Grammar

/-- A name that spells no keyword. -/
structure FreeName (l : Text) : Prop where
  isName : Text.NameLexeme l
  notKeyword : ∀ k : Keyword, k.spelling.toList ≠ l

/-- An operator and the operand behind it, with the text of each. -/
structure Step where
  sign : Text
  op : BinaryOp
  operand : Text
  right : Expr

namespace Step

/-- The text of an operator and its right operand. -/
def text (x : Step) : Text := x.sign ++ x.operand

/-- The tree so far becomes the left operand. -/
def extend (left : Expr) (x : Step) : Expr := .binary left x.op x.right

end Step

/-- The phrases of an expression. -/
inductive Phrase where
  | factor
  | term
  | expr

/-- **The phrases of an expression**: a text, its tree, and a bound on the
nesting of its parentheses. -/
inductive Derives : Phrase → Nat → Text → Expr → Prop
  /-- A float stands for the double it writes. -/
  | float {n : Nat} {l s : Text} (hl : Text.FloatLexeme l) (hs : Text.Spaced l s) :
      Derives .factor n s (.float (Text.floatValue l))
  /-- An integer of sixty-four bits stands for itself. -/
  | int {n : Nat} {l s : Text} {v : Int} (hl : Text.IntegerLexeme l v)
      (hv : -2 ^ 63 ≤ v ∧ v < 2 ^ 63) (hs : Text.Spaced l s) : Derives .factor n s (.int v)
  /-- A name is a variable. -/
  | name {n : Nat} {l s : Text} (hl : FreeName l) (hs : Text.Spaced l s) :
      Derives .factor n s (.identifier l)
  /-- Parentheses leave no trace in the tree. -/
  | nested {n : Nat} {s₁ s₂ s₃ : Text} {e : Expr} (ho : Text.Spaced ['('] s₁)
      (he : Derives .expr n s₂ e) (hc : Text.Spaced [')'] s₃) :
      Derives .factor (n + 1) (s₁ ++ (s₂ ++ s₃)) e
  /-- Factors joined by multiplicative operators, folded to the left. -/
  | term {n : Nat} {s : Text} {head : Expr} {steps : List Step} (hhead : Derives .factor n s head)
      (hsigns : ∀ x ∈ steps, x.op ∈ multiplicative ∧ Text.Spaced x.op.symbol.toList x.sign)
      (hsteps : ∀ x ∈ steps, Derives .factor n x.operand x.right) :
      Derives .term n (s ++ steps.flatMap Step.text) (steps.foldl Step.extend head)
  /-- Terms joined by additive operators, folded to the left. -/
  | expr {n : Nat} {s : Text} {head : Expr} {steps : List Step} (hhead : Derives .term n s head)
      (hsigns : ∀ x ∈ steps, x.op ∈ additive ∧ Text.Spaced x.op.symbol.toList x.sign)
      (hsteps : ∀ x ∈ steps, Derives .term n x.operand x.right) :
      Derives .expr n (s ++ steps.flatMap Step.text) (steps.foldl Step.extend head)

/-- **Statements**: a name, an assignment sign, an expression and a
semicolon. -/
inductive DerivesStmt (n : Nat) : Text → Stmt → Prop
  | mk {x s₁ s₂ s₃ s₄ : Text} {op : AssignOp} {e : Expr} (hx : FreeName x)
      (hs₁ : Text.Spaced x s₁) (hs₂ : Text.Spaced op.symbol.toList s₂)
      (he : Derives .expr n s₃ e) (hs₄ : Text.Spaced [';'] s₄) :
      DerivesStmt n (s₁ ++ (s₂ ++ (s₃ ++ s₄))) ⟨x, op, e⟩

/-- **Programs**: statements one after the other, and blanks before the
end. -/
inductive DerivesProgram (n : Nat) : Text → List Stmt → Prop
  | done {s : Text} (hs : s.Blank) : DerivesProgram n s []
  | step {s t : Text} {st : Stmt} {sts : List Stmt} (hst : DerivesStmt n s st)
      (hsts : DerivesProgram n t sts) : DerivesProgram n (s ++ t) (st :: sts)

end Grammar

end StraightLine
