import StraightLine.Parser.Node

/-!
# Schemes — parsers as data

A scheme describes a parser, and `Scheme.parserWith` gives its meaning once
the named rules it refers to have one. Rules may refer to each other and to
themselves; `Scheme.parserUpTo` follows a number of references, and
`Scheme.parse` as many as can be met without a rule coming back to itself at
the place where it started.
-/

namespace StraightLine

/-- A parser as data. -/
inductive Scheme where
  | noop
  | item
  | integer
  | decimal
  | endOfInput
  | literal (text : Text)
  | pattern (p : WrittenPattern) (message : Text)
  | sequence (parts : List Scheme)
  | oneOf (choices : List Scheme)
  | pair (first second : Scheme)
  | triple (first second third : Scheme)
  | either (first second : Scheme)
  | zeroOrMore (part : Scheme)
  | oneOrMore (part : Scheme)
  | optional (part : Scheme)
  | surroundedBy (part around : Scheme)
  | skipBlanks (part : Scheme)
  | test (part : Scheme) (holds : Node → Bool) (message : Text)
  | map (part : Scheme) (f : Node → Node)
  | andThen (part : Scheme) (f : Node → Except ParseError Node)
  | ref (name : Text)

namespace Scheme

mutual

/-- The parser of a scheme, given those of the named rules. -/
def parserWith (rules : Text → Parser Node) : Scheme → Parser Node
  | noop => .map (fun _ => .empty) .noop
  | item => .map .item .item
  | integer => .map .expr .integer
  | decimal => .map .expr .decimal
  | endOfInput => .map (fun _ => .empty) .endOfInput
  | literal text => .map .literal (.literal text)
  | pattern p message => .map (fun m => .matched m.value m.groups) (.pattern p message)
  | sequence parts => .map .several (.sequence (parsersWith rules parts))
  | oneOf choices => .oneOf (parsersWith rules choices)
  | pair p q => .map (fun r => .pair r.1 r.2) (.pair (parserWith rules p) (parserWith rules q))
  | triple p q r =>
    .map (fun r => .triple r.1 r.2.1 r.2.2)
      (.triple (parserWith rules p) (parserWith rules q) (parserWith rules r))
  | either p q => .either (parserWith rules p) (parserWith rules q)
  | zeroOrMore p => .map .several (.zeroOrMore (parserWith rules p))
  | oneOrMore p => .map .several (.oneOrMore (parserWith rules p))
  | optional p =>
    .map (fun r => match r with | some n => .present n | none => .absent)
      (.optional (parserWith rules p))
  | surroundedBy p q => .surroundedBy (parserWith rules p) (parserWith rules q)
  | skipBlanks p => .skipBlanks (parserWith rules p)
  | test p holds message => .test (parserWith rules p) holds message
  | map p f => .map f (parserWith rules p)
  | andThen p f => .andThen (parserWith rules p) f
  | ref name => rules name

/-- The parsers of some schemes. -/
def parsersWith (rules : Text → Parser Node) : List Scheme → List (Parser Node)
  | [] => []
  | p :: ps => parserWith rules p :: parsersWith rules ps

end

/-- A scheme with its rules, references being followed so many times over. -/
def parserUpTo (rules : Text → Option Scheme) : Nat → Scheme → Parser Node
  | 0, s => s.parserWith fun name _ => .error (.meaningless name)
  | n + 1, s =>
    s.parserWith fun name =>
      match rules name with
      | some rule => parserUpTo rules n rule
      | none => fun _ => .error (.meaningless name)

/-- Runs a scheme with its rules. -/
def parse (rules : List (Text × Scheme)) (s : Scheme) : Parser Node := fun t =>
  parserUpTo (fun name => rules.lookup name) ((rules.length + 1) * (t.length + 1)) s t

end Scheme

end StraightLine
