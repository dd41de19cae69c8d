import StraightLine.Token.Basic

/-!
# Log records — what a run tells about itself
-/

namespace StraightLine

/-- How important a record is. -/
inductive LogLevel where
  | error
  | warn
  | info
  | debug
  | trace
  deriving DecidableEq, Repr

namespace LogLevel

/-- The name of a level. -/
def name : LogLevel → String
  | error => "ERROR"
  | warn => "WARN"
  | info => "INFO"
  | debug => "DEBUG"
  | trace => "TRACE"

/-- How talkative a log is that shows a level, silence being zero. -/
def verbosity : LogLevel → Nat
  | error => 1
  | warn => 2
  | info => 3
  | debug => 4
  | trace => 5

end LogLevel

/-- What a record is about. Topics are nested, so that a filter can take a
group of them by the start of their names. -/
inductive LogTopic where
  | session
  | settings
  | files
  | lexicon
  | lexing
  | parsing
  | units
  | phases
  deriving DecidableEq, Repr

namespace LogTopic

/-- The name of a topic, from the outer group inwards. -/
def path : LogTopic → List String
  | session => ["osta"]
  | settings => ["osta", "config"]
  | files => ["osta", "config", "cli"]
  | lexicon => ["osta", "lex", "registry"]
  | lexing => ["osta", "lex"]
  | parsing => ["osta", "parse", "grammar"]
  | units => ["osta", "core", "pipeline"]
  | phases => ["osta", "core", "compiler"]

/-- The name of a topic as filters write it. -/
def name (t : LogTopic) : String := "::".intercalate t.path

end LogTopic

/-- One thing that is told. -/
structure LogRecord where
  level : LogLevel
  topic : LogTopic
  message : String
  deriving DecidableEq, Repr

end StraightLine
