import StraightLine.Lexer.Error
import StraightLine.Parser.Error
import StraightLine.TokenTree.Basic
import StraightLine.Path.Basic

/-!
# Faults — everything that can stop a build

A fault has a cause, perhaps inside a source file that is named. Its category
is that of the innermost cause, and the category alone decides how severe it
is and with which status the program ends.
-/

namespace StraightLine

/-- Why a build fails. -/
inductive Fault where
  /-- A file cannot be read or written. -/
  | file (message : String)
  | lexing (e : LexError)
  | parsing (e : ParseError)
  | unbalanced (e : UnbalancedError)
  /-- A stored value cannot be read or written. -/
  | stored (message : String)
  /-- Settings contradict each other. -/
  | setting (field message : String)
  /-- A setting has a value it cannot have. -/
  | invalidValue (field : String) (value : Text) (reason : String)
  /-- A setting is not there. -/
  | missing (field : String)
  /-- A fault in a source file. -/
  | inSource (path : Path) (cause : Fault)
  deriving DecidableEq, Repr

/-- Whose fault it is. -/
inductive Category where
  | config
  | io
  | syntactic
  | internal
  deriving DecidableEq, Repr

/-- How bad it is. -/
inductive Severity where
  | low
  | medium
  | high
  | critical
  deriving DecidableEq, Repr

namespace Category

/-- The name of a category. -/
def name : Category → String
  | config => "Config"
  | io => "Io"
  | syntactic => "Syntax"
  | internal => "Internal"

/-- How bad faults of a category are. -/
def severity : Category → Severity
  | config => .high
  | io => .medium
  | syntactic => .high
  | internal => .critical

/-- What can be done about faults of a category. -/
def suggestion : Category → String
  | config => "Review the configuration file"
  | io => "Make sure the file exists and the output directory is writable"
  | syntactic => "Fix the source at the reported line and column, then compile again"
  | internal => "This is a bug in osta; please report it with the input that triggered it"

end Category

namespace Severity

/-- The name of a severity. -/
def name : Severity → String
  | low => "Low"
  | medium => "Medium"
  | high => "High"
  | critical => "Critical"

/-- The status a program ends with. -/
def exitCode : Severity → Nat
  | low => 0
  | medium => 2
  | high => 1
  | critical => 3

end Severity

/-- Whose fault a lexing error is: an unreadable source is nobody's, and only
an unexpected token is in the source. -/
def LexError.category : LexError → Category
  | .unreadable _ => .io
  | .invalidRule .. => .internal
  | .notAKeyword _ => .internal
  | .nothingToRestore => .internal
  | .stalled _ => .internal
  | .unexpectedToken .. => .syntactic

namespace Fault

/-- The category of the innermost cause. -/
def category : Fault → Category
  | file _ => .io
  | lexing e => e.category
  | parsing _ => .syntactic
  | unbalanced _ => .syntactic
  | stored _ => .internal
  | setting .. => .config
  | invalidValue .. => .config
  | missing _ => .config
  | inSource _ cause => cause.category

/-- How bad it is. -/
def severity (f : Fault) : Severity := f.category.severity

/-- The status the program ends with. -/
def exitCode (f : Fault) : Nat := f.severity.exitCode

/-- The fault in words. -/
def message : Fault → String
  | file m => s!"IO error: {m}"
  | lexing e => s!"Lexing failed: {e.message}"
  | parsing e => s!"Parsing failed: {e.message}"
  | unbalanced e => s!"Syntax tree error: {e.message}"
  | stored m => s!"Serialization error: {m}"
  | setting field m => s!"Configuration error in '{field}': {m}"
  | invalidValue field value reason =>
    s!"Invalid value '{String.ofList value}' for '{field}': {reason}"
  | missing field => s!"Missing required configuration: {field}"
  | inSource path cause => s!"Compilation error in {String.ofList path}: " ++ cause.message

/-- The fault in words for its user. -/
def friendlyMessage : Fault → String
  | inSource path cause => s!"{String.ofList path}: " ++ cause.friendlyMessage
  | lexing e => s!"Lexing failed: {e.message}"
  | parsing e => s!"Syntax error: {e.message}"
  | unbalanced e => s!"Syntax error: {e.message}"
  | file m => s!"File error: {m}"
  | stored m => message (stored m)
  | setting field m => message (setting field m)
  | invalidValue field value reason => message (invalidValue field value reason)
  | missing field => message (missing field)

/-- What can be done about it. -/
def suggestion : Fault → String
  | inSource _ cause => cause.suggestion
  | missing field => s!"Set '{field}' in osta.toml or pass it on the command line"
  | invalidValue field _ _ => s!"Check the value of '{field}' in your configuration"
  | setting field _ => s!"Check the value of '{field}' in your configuration"
  | file _ => Category.suggestion .io
  | lexing e => e.category.suggestion
  | parsing _ => Category.suggestion .syntactic
  | unbalanced _ => Category.suggestion .syntactic
  | stored _ => Category.suggestion .internal

end Fault

end StraightLine
