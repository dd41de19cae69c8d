import StraightLine.CommandLine.Reader
import StraightLine.Log.Filter
import StraightLine.Settings.Resolution

/-!
# Sessions — one run of the program

A session resolves the settings of its command line, checks them, and builds
unless only a dry run is wanted. What it leaves behind, apart from files and
records, is its outcome: a status, what it has to show, and its complaints.

Two kinds of records are left out: the one that repeats the command line when it
asks for more to be told, and those of a monitor, which hold times and memory
(`📊`). Nothing that a session does depends on them.
-/

namespace StraightLine

/-- How a session ends. -/
structure Outcome where
  status : Nat
  shown : String
  complaint : String
  deriving DecidableEq, Repr

/-- How a session ends that is not told what to do. -/
def UsageError.outcome : UsageError → Outcome
  | helpWanted => ⟨0, CommandLine.usage, ""⟩
  | e => ⟨2, "", s!"error: {e.message}\n\n{CommandLine.usage}"⟩

/-- The same platform, on which only some records are kept. -/
def Platform.showing {m : Type → Type} [Monad m] (p : Platform m) (f : LogFilter) : Platform m :=
  { p with log := fun r => if f.shows r then p.log r else pure () }

namespace Session

variable {m : Type → Type} [Monad m]

/-- The version of the program. -/
def version : String := "0.1.0"

/-- The variable that holds a log filter. -/
def filterVariable : Text := "RUST_LOG".toList

/-- Tells something about a session. -/
def tell (p : Platform m) (level : LogLevel) (message : String) : m Unit :=
  p.log ⟨level, .session, message⟩

/-- Settings that may be built. -/
def settingsFor (p : Platform m) (c : CommandLine) : ExceptT Fault m Settings := do
  let s ← Settings.resolve p c
  match s.check with
  | .error e => throw e
  | .ok () => return s

/-- Ends a session whose settings are wrong. -/
def refuse (p : Platform m) (e : Fault) : m Outcome := do
  tell p .error s!"❌ Configuration validation failed: {e.message}"
  tell p .error s!"💡 Suggestion: {e.suggestion}"
  return ⟨max e.exitCode 1, "", s!"❌ {e.friendlyMessage}\n"⟩

/-- Ends a session whose build failed. -/
def fail (p : Platform m) (e : Fault) : m Outcome := do
  tell p .error
    (s!"❌ Compilation failed: {e.message} " ++
      s!"(Category: {e.category.name}, Severity: {e.severity.name})")
  tell p .error s!"💡 Recovery suggestion: {e.suggestion}"
  return ⟨e.exitCode, "", s!"❌ {e.friendlyMessage}\n💡 Suggestion: {e.suggestion}\n"⟩

/-- Ends a session whose build succeeded. -/
def succeed (p : Platform m) (output : Path) : m Outcome := do
  tell p .info "✅ Compilation completed successfully!"
  return ⟨0,
    s!"✅ Compilation completed successfully!\n📁 Output saved to: {String.ofList output}\n", ""⟩

/-- Builds what settings say. -/
def build (p : Platform m) (s : Settings) : m Outcome := do
  if s.monitor then tell p .info "🔍 Phase monitoring enabled"
  match ← Build.run (p.host s.root) (.start s.monitor) s.request with
  | (.ok output, _) => succeed p output
  | (.error e, _) => fail p e

/-- Runs a command line. -/
def runCommand (p : Platform m) (c : CommandLine) : m Outcome := do
  tell p .info s!"Starting osta {version}"
  match ← (settingsFor p c).run with
  | .error e => refuse p e
  | .ok s =>
    if c.dryRun then return ⟨0, s!"🔎 Dry run, nothing will be written\n{s.summary}\n", ""⟩
    else build p s

/-- Runs the words of a command line, keeping the records that are wanted. -/
def run (p : Platform m) (words : List Text) : m Outcome := do
  match CommandLine.ofWords? words with
  | .error e => return e.outcome
  | .ok c =>
    let filter := LogFilter.choose c.verbose (← p.valueOf? filterVariable)
    runCommand (p.showing filter) c

end Session

end StraightLine
