import StraightLine.CommandLine.Basic

/-!
# Arguments — command lines from their words

The words of a command line are read in two steps. First they become
arguments: after a word of two dashes every word is a source; before it, a
word that starts with two dashes is a long name, perhaps with a value after an
equals sign; a word that starts with one dash is a row of letters, the last of
which may be followed by its value; a parameter without a value takes the next
word unless that word starts with a dash. Then the arguments fill a command
line from left to right, and the first one that cannot be used is reported.

A parameter whose value is a word of its own is used only when the next
argument is known to be understood, so a word that is not understood is
reported before anything that is wrong with the parameter before it.
-/

namespace StraightLine

/-- A switch, which has no value. -/
inductive Switch where
  | verbose
  | monitor
  | dryRun
  | jsonLog
  | help
  deriving DecidableEq, Repr

/-- A parameter, which has a value. -/
inductive Parameter where
  | manifest
  | output
  | kinds
  deriving DecidableEq, Repr

/-- What a name stands for. -/
inductive ArgumentName where
  | switch (s : Switch)
  | parameter (p : Parameter)
  deriving DecidableEq, Repr

/-- Why words are not a command line that can be run. -/
inductive UsageError where
  /-- Nothing has this name. -/
  | unknownArgument
  /-- A parameter has no value. -/
  | missingValue
  /-- A switch has a value. -/
  | needlessValue
  /-- Something that may be said once is said again. -/
  | repeated
  /-- Help is asked for, and nothing else is done. -/
  | helpWanted
  deriving DecidableEq, Repr

/-- One argument of a command line. -/
inductive Argument where
  | source (p : Path)
  | switch (s : Switch)
  /-- A parameter with its value in the same word. -/
  | joined (p : Parameter) (value : Text)
  /-- A parameter whose value is the next word, if that can be a value. -/
  | apart (p : Parameter) (value : Option Text)
  /-- A name that is not understood. -/
  | unknown
  /-- A switch with a value. -/
  | needless
  deriving DecidableEq, Repr

namespace ArgumentName

/-- The long names. -/
def long : List (String × ArgumentName) :=
  [("config", .parameter .manifest), ("output", .parameter .output), ("emit", .parameter .kinds),
    ("verbose", .switch .verbose), ("monitor", .switch .monitor), ("dry-run", .switch .dryRun),
    ("log-json", .switch .jsonLog), ("help", .switch .help)]

/-- The letters. -/
def letters : List (Char × ArgumentName) :=
  [('c', .parameter .manifest), ('o', .parameter .output), ('v', .switch .verbose),
    ('h', .switch .help)]

/-- What a long name stands for. -/
def ofLong? (name : Text) : Option ArgumentName :=
  (long.find? fun entry => entry.1.toList == name).map Prod.snd

/-- What a letter stands for. -/
def ofLetter? (c : Char) : Option ArgumentName := letters.lookup c

end ArgumentName

namespace Argument

/-- The arguments in one word, and the parameter that waits for its value. -/
structure Reading where
  arguments : List Argument
  waiting : Option Parameter
  deriving DecidableEq, Repr

/-- A word that starts with two dashes, without them. -/
def ofLong (word : Text) : Reading :=
  match ArgumentName.ofLong? (word.takeWhile (· != '=')), word.dropWhile (· != '=') with
  | none, _ => ⟨[.unknown], none⟩
  | some (.switch s), [] => ⟨[.switch s], none⟩
  | some (.switch _), _ :: _ => ⟨[.needless], none⟩
  | some (.parameter p), [] => ⟨[], some p⟩
  | some (.parameter p), _ :: value => ⟨[.joined p value], none⟩

/-- The value after a letter, without an equals sign before it. -/
def letterValue : Text → Text
  | '=' :: value => value
  | value => value

/-- A row of letters. -/
def ofLetters : Text → Reading
  | [] => ⟨[], none⟩
  | c :: word =>
    match ArgumentName.ofLetter? c with
    | none => ⟨[.unknown], none⟩
    | some (.switch s) => { ofLetters word with arguments := .switch s :: (ofLetters word).arguments }
    | some (.parameter p) =>
      if word = [] then ⟨[], some p⟩ else ⟨[.joined p (letterValue word)], none⟩

/-- One word that is not two dashes alone. -/
def ofWord : Text → Reading
  | '-' :: '-' :: word => ofLong word
  | ['-'] => ⟨[.source ['-']], none⟩
  | '-' :: word => ofLetters word
  | word => ⟨[.source word], none⟩

/-- Whether a word can be the value of the parameter before it. -/
def isValue : Text → Bool
  | ['-'] => true
  | '-' :: _ => false
  | _ => true

/-- The arguments of a list of words. -/
def ofWords : List Text → List Argument
  | [] => []
  | word :: words =>
    if word = ['-', '-'] then words.map .source
    else
      let read := ofWord word
      match read.waiting, words with
      | none, words => read.arguments ++ ofWords words
      | some p, [] => read.arguments ++ [.apart p none]
      | some p, next :: rest =>
        if isValue next then read.arguments ++ .apart p (some next) :: ofWords rest
        else read.arguments ++ .apart p none :: ofWords (next :: rest)

/-- What is wrong with an argument whatever stands around it. -/
def fault? : Argument → Option UsageError
  | unknown => some .unknownArgument
  | needless => some .needlessValue
  | _ => none

end Argument

namespace CommandLine

/-- Turns a switch on. -/
def turnOn (c : CommandLine) : Switch → Except UsageError CommandLine
  | .verbose => if c.verbose then .error .repeated else .ok { c with verbose := true }
  | .monitor => if c.monitor then .error .repeated else .ok { c with monitor := true }
  | .dryRun => if c.dryRun then .error .repeated else .ok { c with dryRun := true }
  | .jsonLog => if c.jsonLog then .error .repeated else .ok { c with jsonLog := true }
  | .help => .error .helpWanted

/-- Gives a parameter its value; kinds are added to those before them. -/
def set (c : CommandLine) (p : Parameter) (value : Text) : Except UsageError CommandLine :=
  match p with
  | .manifest => if c.manifest.isSome then .error .repeated else .ok { c with manifest := some value }
  | .output => if c.output.isSome then .error .repeated else .ok { c with output := some value }
  | .kinds => .ok { c with kinds := c.kinds ++ Text.cutAt ',' value }

/-- Uses one argument. -/
def use (c : CommandLine) : Argument → Except UsageError CommandLine
  | .source p => .ok { c with sources := c.sources ++ [p] }
  | .switch s => c.turnOn s
  | .joined p value => c.set p value
  | .apart p (some value) => c.set p value
  | .apart _ none => .error .missingValue
  | .unknown => .error .unknownArgument
  | .needless => .error .needlessValue

/-- Whether an argument waits for the one after it to be understood. -/
def waits : Argument → Bool
  | .apart .. => true
  | _ => false

/-- Uses arguments from left to right. -/
def useAll (c : CommandLine) : List Argument → Except UsageError CommandLine
  | [] => .ok c
  | a :: rest =>
    match (if waits a then rest.head?.bind Argument.fault? else none) with
    | some e => .error e
    | none =>
      match c.use a with
      | .error e => .error e
      | .ok c => useAll c rest

/-- The command line of a list of words. -/
def ofWords? (words : List Text) : Except UsageError CommandLine :=
  empty.useAll (Argument.ofWords words)

/-- How the program is called. -/
def usage : String :=
  "\n".intercalate
    ["Front-end for the osta language: lexes, parses and lowers sources to IL", "",
      "Usage: osta [OPTIONS] [SOURCES]...", "",
      "  -c, --config <CONFIG>  Path to an osta.toml manifest",
      "  -o, --output <OUTPUT>  Directory the artifacts are written to",
      "      --emit <EMIT>      Artifacts to emit: tokens,cst,ast,il",
      "  -v, --verbose          Enable verbose output",
      "      --monitor          Log per-phase timing and memory usage",
      "      --dry-run          Resolve and validate the configuration without compiling",
      "      --log-json         Emit logs as JSON lines on stderr",
      "  -h, --help             Print help", ""]

end CommandLine

/-- What is wrong with a command line, in words. -/
def UsageError.message : UsageError → String
  | unknownArgument => "unexpected argument found"
  | missingValue => "a value is required but none was supplied"
  | needlessValue => "unexpected value for a switch"
  | repeated => "an argument cannot be used multiple times"
  | helpWanted => CommandLine.usage

end StraightLine
