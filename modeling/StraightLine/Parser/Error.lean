import StraightLine.Text.Place

/-!
# Parsing errors — causes, wording and place

Only what is left after a whole expression and the first statement that fails
know where they are; a statement's error carries the cause of its failure.
-/

namespace StraightLine

/-- Why parsing fails. -/
inductive ParseError where
  /-- The text ends too early. -/
  | unexpectedEnd
  /-- A fixed text is not there. -/
  | expectedLiteral (expected : Text)
  /-- A failure that is described in words. -/
  | rejected (message : Text)
  /-- The text given for a pattern is none. -/
  | invalidPattern (pattern : Text) (reason : String)
  /-- An integer does not fit sixty-four bits. -/
  | invalidInteger (lexeme : Text)
  /-- A float cannot be read. -/
  | invalidFloat (lexeme : Text)
  /-- A sequence or choice of nothing. -/
  | noParsers
  /-- An expression exceeds a limit. -/
  | tooDeep (limit : Nat)
  /-- Something follows a whole expression. -/
  | trailingInput (place : Place) (found : Text)
  /-- The first statement that fails. -/
  | invalidStatement (place : Place) (found : Text) (cause : ParseError)
  /-- A rule that is not defined, or comes back to itself and has read nothing. -/
  | meaningless (name : Text)
  deriving DecidableEq, Repr

namespace ParseError

/-- The error in words. -/
def message : ParseError → String
  | unexpectedEnd => "Unexpected end of input"
  | expectedLiteral expected => s!"Expected literal: {String.ofList expected}"
  | rejected message => String.ofList message
  | invalidPattern pattern reason => s!"Invalid pattern '{String.ofList pattern}': {reason}"
  | invalidInteger lexeme => s!"Invalid integer literal '{String.ofList lexeme}'"
  | invalidFloat lexeme => s!"Invalid float literal '{String.ofList lexeme}'"
  | noParsers => "At least one parser must be provided"
  | tooDeep limit => s!"Expression nests deeper than {limit} levels"
  | trailingInput place found =>
    s!"Unexpected input at {place.line}:{place.column}: '{String.ofList found}'"
  | invalidStatement place found cause =>
    s!"Invalid statement at {place.line}:{place.column} ('{String.ofList found}...'): " ++
      cause.message
  | meaningless name => s!"Rule '{String.ofList name}' has no meaning"

/-- Where the error is, when it knows. -/
def place? : ParseError → Option Place
  | trailingInput place _ => some place
  | invalidStatement place _ _ => some place
  | _ => none

/-- How many characters of the text ahead an error quotes. -/
def quoteLength : Nat := 10

/-- The start of the text ahead. -/
def quote (ahead : Text) : Text := ahead.take quoteLength

end ParseError

end StraightLine
