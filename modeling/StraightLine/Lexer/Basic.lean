import StraightLine.Lexer.Standard
import StraightLine.Text.Cursor

/-!
# Lexer — tokens on demand

The caller names the kinds it accepts next, so one text can be read in
different ways. Besides its cursor a lexer holds positions saved by `backup`
and tokens handed back; a token handed back is given out before anything is
read, whatever kinds are asked for, and the last one first.

A read that fails leaves the lexer as it was. `tokenize` reads to the end of
input; a lexicon whose rule matches beyond the cursor can move it nowhere, and
the run is then cut off as `stalled`.
-/

namespace StraightLine

/-- The state of lexing one text. -/
structure Lexer where
  cursor : Cursor
  lexicon : Lexicon
  saved : List Position
  returned : List Token
  deriving DecidableEq, Repr

/-- The tokens read by a run to the end of input, what stopped it early, and
the lexer it left. -/
structure TokenRun where
  tokens : List Token
  failure : Option LexError
  lexer : Lexer

namespace Lexer

/-- How many characters of the text ahead an error quotes. -/
def quoteLength : Nat := 10

/-- A lexer at the start of a text. -/
def ofText (lexicon : Lexicon) (source : Text) : Lexer := ⟨Cursor.ofText source, lexicon, [], []⟩

/-- Where the lexer stands. -/
def place (l : Lexer) : Place := l.cursor.place

/-- The next token of the given kinds. -/
def nextOf (l : Lexer) (kinds : List TokenKind) : Option Token × Lexer :=
  match l.returned with
  | t :: returned => (some t, { l with returned := returned })
  | [] =>
    let c := l.cursor.skipBlanks
    if c.isEmpty then (some (.endOfInput c.place), { l with cursor := c })
    else
      match l.lexicon.tokenOf? kinds c.remaining c.place with
      | some t => (some t, { l with cursor := c.advance t.value.byteSize })
      | none => (none, l)

/-- What is said when none of the kinds is found: it is located at the first
character that is not blank. -/
def missing (l : Lexer) (kinds : List TokenKind) : LexError :=
  let c := l.cursor.skipBlanks
  .unexpectedToken kinds (c.slice quoteLength) c.place

/-- The next token of the given kinds, or an error. -/
def expectOf (l : Lexer) (kinds : List TokenKind) : Except LexError Token × Lexer :=
  match l.nextOf kinds with
  | (some t, l') => (.ok t, l')
  | (none, l') => (.error (l'.missing kinds), l')

/-- The next token of any kind. -/
def nextToken (l : Lexer) : Except LexError Token × Lexer := l.expectOf TokenKind.all

/-- Reads at most so many tokens, up to the end of input. -/
def readUpTo : Nat → Lexer → TokenRun
  | 0, l => ⟨[], some (.stalled l.place), l⟩
  | n + 1, l =>
    match l.nextToken with
    | (.error e, l') => ⟨[], some e, l'⟩
    | (.ok t, l') =>
      if t.kind = .endOfInput then ⟨[t], none, l'⟩
      else
        let run := readUpTo n l'
        { run with tokens := t :: run.tokens }

/-- Reads to the end of input. Every token takes a character of the text
ahead or is one handed back, unless the lexer stands still. -/
def run (l : Lexer) : TokenRun :=
  l.readUpTo (l.cursor.remaining.length + l.returned.length + 1)

/-- All remaining tokens, the end of input last. -/
def tokenize (l : Lexer) : Except LexError (List Token) × Lexer :=
  let r := l.run
  match r.failure with
  | some e => (.error e, r.lexer)
  | none => (.ok r.tokens, r.lexer)

/-- Up to `n` characters of lookahead. -/
def slice (l : Lexer) (n : Nat) : Text := l.cursor.slice n

/-- Saves the position. -/
def backup (l : Lexer) : Lexer := { l with saved := l.cursor.position :: l.saved }

/-- Returns to the position saved last. -/
def restore (l : Lexer) : Except LexError Unit × Lexer :=
  match l.saved with
  | [] => (.error .nothingToRestore, l)
  | p :: saved => (.ok (), { l with cursor := l.cursor.moveTo p, saved := saved })

/-- Hands a token back. -/
def giveBack (l : Lexer) (t : Token) : Lexer := { l with returned := t :: l.returned }

/-- Whether anything is left to give out. Without a token handed back, this
moves over the blanks ahead. -/
def hasNext (l : Lexer) : Bool × Lexer :=
  match l.returned with
  | _ :: _ => (true, l)
  | [] =>
    let c := l.cursor.skipBlanks
    (!c.isEmpty, { l with cursor := c })

end Lexer

/-- All tokens of a text under the standard lexicon. -/
def tokenize (source : Text) : Except LexError (List Token) :=
  (Lexer.ofText Lexicon.standard source).tokenize.1

end StraightLine
