import StraightLine.Log.Basic
import StraightLine.Artifact.Kind
import StraightLine.Fault.Basic
import StraightLine.Grammar.Basic
import StraightLine.Lexer.Basic
import StraightLine.Program.Encoding
import StraightLine.StackCode.Basic
import StraightLine.TokenTree.Digraph

/-!
# Compiled units — what is known of one source

A source is cut into tokens, the tokens are grouped by their brackets, and the
source is read as a program; the first of the three that fails is the fault of
the unit. A unit holds all that can be written for it: the tokens and the program
as they are, the tree and the code as texts.
-/

namespace StraightLine

/-- A source and where it was read. -/
structure SourceFile where
  path : Path
  contents : Text
  deriving DecidableEq, Repr

/-- What is known of a source that compiles. -/
structure CompiledUnit where
  path : Path
  tokens : List Token
  drawing : Text
  program : Program
  code : Text

/-- Compiles a source. -/
def SourceFile.compile (s : SourceFile) : Except Fault CompiledUnit :=
  match tokenize s.contents with
  | .error e => .error (.lexing e)
  | .ok tokens =>
    match TokenTree.ofTokens tokens with
    | .error e => .error (.unbalanced e)
    | .ok tree =>
      match parseProgram s.contents with
      | .error e => .error (.parsing e)
      | .ok program => .ok ⟨s.path, tokens, tree.digraph, program, program.code.text⟩

namespace CompiledUnit

/-- The number of assignments. -/
def statementCount (u : CompiledUnit) : Nat := u.program.statements.length

/-- What is written for a unit. -/
def artifact (u : CompiledUnit) : ArtifactKind → Text
  | .tokens => (Json.arr (u.tokens.map Token.toJson)).pretty
  | .tree => u.drawing
  | .program => u.program.toJson.pretty
  | .code => u.code

end CompiledUnit

namespace SourceFile

/-- The record of a token that was read; the end of input is not told. -/
def tokenRecord? (t : Token) : Option LogRecord :=
  if t.kind = .endOfInput then none else some ⟨.trace, .lexing, s!"Lexed {t.display}"⟩

/-- What the compilation of a source tells, as far as it comes. -/
def compileLog (s : SourceFile) : List LogRecord :=
  let run := (Lexer.ofText Lexicon.standard s.contents).run
  run.tokens.filterMap tokenRecord? ++
    match run.failure with
    | some _ => []
    | none =>
      ⟨.debug, .lexing, s!"Tokenized {run.tokens.length} tokens"⟩ ::
        match TokenTree.ofTokens run.tokens, parseProgram s.contents with
        | .ok _, .ok p => [⟨.debug, .parsing, s!"Parsed {p.statements.length} statements"⟩]
        | _, _ => []

end SourceFile

/-- The name of a source without directories and extension, or the whole path
when it has no name. -/
def sourceStem (p : Path) : Text := (Path.stem? p).getD p

end StraightLine
