import StraightLine.Lexeme.Class
import StraightLine.Lexer.Error
import StraightLine.Pattern.Match

/-!
# Lexicon — the rules that produce tokens

A rule ties a token kind to what it looks for at the start of the text ahead:
a fixed spelling, a class of lexemes, or the match of a written pattern. A
lexicon is a list of rules in the order they were registered; of the tokens
its rules of one kind produce, the longest is taken, and the rule registered
first wins a tie.
-/

namespace StraightLine

/-- What a rule looks for. -/
inductive Sought where
  | spelling (text : Text)
  | lexeme (of : LexemeClass)
  | pattern (a : Automaton)
  deriving DecidableEq, Repr

/-- What is found in the text ahead. A pattern that leaves its anchor can find
it further on. -/
def Sought.find? : Sought → Text → Option Text
  | spelling s, ahead => (Text.after? s ahead).map fun _ => s
  | lexeme k, ahead => (k.lexeme? ahead).map Prod.fst
  | pattern a, ahead => (a.find? ahead).map fun m => m.value ahead

/-- A kind of token and what it looks like. -/
structure Rule where
  kind : TokenKind
  sought : Sought
  deriving DecidableEq, Repr

namespace Rule

/-- The rule of a written pattern. One leading `^` says what holds anyway. -/
def ofText? (kind : TokenKind) (text : Text) : Except LexError Rule :=
  let body := match text with
    | '^' :: rest => rest
    | text => text
  match Automaton.ofTextAnchored? body with
  | .ok a => .ok ⟨kind, .pattern a⟩
  | .error e => .error (.invalidRule kind text e.message)

/-- The rule that reads a fixed spelling. -/
def ofSpelling (kind : TokenKind) (spelling : String) : Rule :=
  ⟨kind, .spelling spelling.toList⟩

/-- The rule that reads the lexemes of a class. -/
def ofClass (kind : TokenKind) (k : LexemeClass) : Rule := ⟨kind, .lexeme k⟩

/-- The rule of a keyword kind. -/
def ofKeyword? (kind : TokenKind) : Except LexError Rule :=
  match kind.spelling? with
  | some spelling => .ok (ofSpelling kind spelling)
  | none => .error (.notAKeyword kind)

/-- The token a rule finds in the text ahead. Empty text is none. -/
def token? (r : Rule) (ahead : Text) (place : Place) : Option Token :=
  match r.sought.find? ahead with
  | none => none
  | some [] => none
  | some (c :: rest) => some ⟨r.kind, c :: rest, place⟩

end Rule

namespace Token

/-- The longer of two tokens, the first one on a tie. -/
def longer (best : Option Token) (t : Token) : Option Token :=
  match best with
  | none => some t
  | some b => if b.length < t.length then some t else some b

/-- The longest of some tokens, the earliest on a tie. -/
def longest (ts : List Token) : Option Token := ts.foldl longer none

end Token

/-- Rules in the order they were registered. -/
structure Lexicon where
  rules : List Rule
  deriving DecidableEq, Repr

/-- A rule as it is registered: ready, or still to be made. -/
inductive RuleSource where
  | rule (r : Rule)
  | keyword (kind : TokenKind)
  | pattern (kind : TokenKind) (text : Text)
  deriving DecidableEq, Repr

/-- Makes the rule. -/
def RuleSource.rule? : RuleSource → Except LexError Rule
  | rule r => .ok r
  | keyword kind => Rule.ofKeyword? kind
  | pattern kind text => Rule.ofText? kind text

namespace Lexicon

/-- Makes every rule in order; the first one that fails is the answer. -/
def build (sources : List RuleSource) : Except LexError Lexicon :=
  (sources.mapM RuleSource.rule?).map Lexicon.mk

/-- The rules of a kind. -/
def rulesOf (x : Lexicon) (kind : TokenKind) : List Rule := x.rules.filter fun r => r.kind = kind

/-- The number of kinds that have a rule. -/
def kindCount (x : Lexicon) : Nat := (TokenKind.all.filter fun k => x.rulesOf k ≠ []).length

/-- The tokens that some rules find in the text ahead, in their order. -/
def found (rules : List Rule) (ahead : Text) (place : Place) : List Token :=
  rules.filterMap fun r => r.token? ahead place

/-- The longest token of a kind in the text ahead. -/
def token? (x : Lexicon) (kind : TokenKind) (ahead : Text) (place : Place) : Option Token :=
  Token.longest (found (x.rulesOf kind) ahead place)

/-- The longest token of some kinds in the text ahead; of those that are as
long, the one of the kind listed first, and of these the one whose rule was
registered first. -/
def tokenOf? (x : Lexicon) (kinds : List TokenKind) (ahead : Text) (place : Place) :
    Option Token :=
  let found := found x.rules ahead place
  Token.longest (kinds.flatMap fun kind => found.filter fun t => t.kind = kind)

end Lexicon

end StraightLine
