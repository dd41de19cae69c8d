import StraightLine.Token.Basic

/-!
# Lexing errors — causes and their wording
-/

namespace StraightLine

/-- Why lexing, or building a lexicon, fails. -/
inductive LexError where
  /-- The text given for a rule is no pattern. -/
  | invalidRule (kind : TokenKind) (pattern : Text) (reason : String)
  /-- A keyword rule was asked for a kind without a spelling. -/
  | notAKeyword (kind : TokenKind)
  /-- No rule of the expected kinds matches. -/
  | unexpectedToken (expected : List TokenKind) (found : Text) (place : Place)
  /-- No saved position is left. -/
  | nothingToRestore
  /-- A rule matched beyond the cursor and moved it nowhere, so the same
  token would be read for ever. -/
  | stalled (place : Place)
  /-- The source could not be read. -/
  | unreadable (reason : String)
  deriving DecidableEq, Repr

namespace LexError

/-- The kinds asked for: a single one by its name, others as a list. -/
def expectation : List TokenKind → String
  | [kind] => kind.name
  | kinds => "one of [" ++ ", ".intercalate (kinds.map TokenKind.name) ++ "]"

/-- The error in words. -/
def message : LexError → String
  | invalidRule kind pattern reason =>
    s!"Invalid token rule for {kind.name} ({String.ofList pattern}): {reason}"
  | notAKeyword kind => s!"{kind.name} has no keyword spelling"
  | unexpectedToken expected found place =>
    s!"Unexpected token at {place.line}:{place.column}. " ++
      s!"Expected {expectation expected} but got '...{String.ofList found}...'."
  | nothingToRestore => "No saved lexer position to restore"
  | stalled place => s!"No progress at {place.line}:{place.column}"
  | unreadable reason => s!"Could not read source: {reason}"

end LexError

end StraightLine
