import StraightLine.Build.Monitor
import StraightLine.Build.Unit
import StraightLine.Text.Utf8

/-!
# Builds — load, compile, emit

A build reads all sources, compiles all of them and writes the artifacts that
were asked for. A phase starts only when the one before it has succeeded, and
before the first artifact is written all stems are known to differ, so a fault
in a source leaves nothing behind.

Where files come from and where records go to is up to a `Host`.
-/

namespace StraightLine

/-- Where a build reads, writes and tells. -/
structure Host (m : Type → Type) where
  read : Path → ExceptT Fault m Bytes
  write : Path → Bytes → ExceptT Fault m Unit
  log : LogRecord → m Unit

/-- What a build is asked for. -/
structure BuildRequest where
  sources : List Path
  output : Path
  kinds : List ArtifactKind
  deriving DecidableEq, Repr

namespace Build

variable {m : Type → Type} [Monad m]

/-- Reads a source; its bytes have to be a text. -/
def loadSource (h : Host m) (path : Path) : ExceptT Fault m SourceFile := do
  h.log ⟨.debug, .units, s!"Loading source {String.ofList path}"⟩
  let bytes ← (h.read path).adapt (Fault.inSource path)
  match Utf8.decode bytes with
  | .error e => throw (.inSource path (.file e.message))
  | .ok contents => return ⟨path, contents⟩

/-- Reads sources in order. -/
def loadAll (h : Host m) : List Path → ExceptT Fault m (List SourceFile)
  | [] => return []
  | p :: ps => do
    let s ← loadSource h p
    let ss ← loadAll h ps
    return s :: ss

/-- Reads the sources of a build, of which there has to be one. -/
def load (h : Host m) (paths : List Path) : ExceptT Fault m (List SourceFile) :=
  match paths with
  | [] => throw (.missing "sources")
  | p :: ps => loadAll h (p :: ps)

/-- Compiles a source. -/
def compileSource (h : Host m) (s : SourceFile) : ExceptT Fault m CompiledUnit := do
  for r in s.compileLog do
    h.log r
  match s.compile with
  | .error e => throw (.inSource s.path e)
  | .ok u =>
    h.log ⟨.debug, .units,
      s!"Compiled {String.ofList u.path}: {u.tokens.length} tokens, {u.statementCount} statements"⟩
    return u

/-- Compiles sources in order. -/
def compileAll (h : Host m) : List SourceFile → ExceptT Fault m (List CompiledUnit)
  | [] => return []
  | s :: ss => do
    let u ← compileSource h s
    let us ← compileAll h ss
    return u :: us

/-- Compiles the sources of a build. -/
def compile (h : Host m) (sources : List SourceFile) : ExceptT Fault m (List CompiledUnit) := do
  h.log ⟨.debug, .lexicon,
    s!"Built token registry with {Lexicon.standard.kindCount} token kinds"⟩
  compileAll h sources

/-- The number of assignments of all units. -/
def statementCount (units : List CompiledUnit) : Nat :=
  units.foldl (fun n u => n + u.statementCount) 0

/-- The first of some texts that has occurred before. -/
def repeated? : (seen : List Text) → List Text → Option Text
  | _, [] => none
  | seen, t :: ts => if seen.contains t then some t else repeated? (t :: seen) ts

/-- The name of an artifact's file. -/
def artifactName (stem : Text) (kind : ArtifactKind) : Text :=
  stem ++ '.' :: kind.extension.toList

/-- The file an artifact is written to. -/
def artifactPath (output : Path) (u : CompiledUnit) (kind : ArtifactKind) : Path :=
  Path.join output (artifactName (sourceStem u.path) kind)

/-- The files a build writes, source by source. -/
def artifacts (output : Path) (kinds : List ArtifactKind) (units : List CompiledUnit) :
    List (Path × Bytes) :=
  units.flatMap fun u =>
    kinds.map fun k => (artifactPath output u k, Utf8.encode (u.artifact k))

/-- Writes files in order, up to the first that cannot be written. -/
def writeAll (h : Host m) : List (Path × Bytes) → ExceptT Fault m Unit
  | [] => return ()
  | (path, bytes) :: files => do
    h.log ⟨.debug, .units, s!"Writing {String.ofList path} ({bytes.length} bytes)"⟩
    h.write path bytes
    writeAll h files

/-- Writes the artifacts of units whose stems differ, and tells where to. -/
def emit (h : Host m) (r : BuildRequest) (units : List CompiledUnit) : ExceptT Fault m Path := do
  match repeated? [] (units.map fun u => sourceStem u.path) with
  | some stem =>
    throw (.setting "sources"
      (s!"More than one source is named '{String.ofList stem}'; " ++
        "their artifacts would overwrite each other"))
  | none =>
    writeAll h (artifacts r.output r.kinds units)
    return r.output

/-- Tells something about the phases of a build. -/
def tell (h : Host m) (message : String) : m Unit := h.log ⟨.info, .phases, message⟩

/-- Runs a build; the phases that were finished are recorded. -/
def run (h : Host m) (monitor : PhaseMonitor) (r : BuildRequest) :
    m (Except Fault Path × PhaseMonitor) := do
  tell h "🚀 Starting compilation..."
  match ← (load h r.sources).run with
  | .error e => return (.error e, monitor)
  | .ok sources =>
    tell h s!"📂 Loaded {sources.length} source files"
    let monitor := monitor.finish "load"
    match ← (compile h sources).run with
    | .error e => return (.error e, monitor)
    | .ok units =>
      tell h s!"🔧 Compiled {units.length} files ({statementCount units} statements)"
      let monitor := monitor.finish "compile"
      match ← (emit h r units).run with
      | .error e => return (.error e, monitor)
      | .ok output =>
        tell h s!"💾 Artifacts written to: {String.ofList output}"
        return (.ok output, monitor.finish "emit")

end Build

end StraightLine
