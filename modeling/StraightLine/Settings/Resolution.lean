import StraightLine.CommandLine.Basic
import StraightLine.Settings.Basic
import StraightLine.Storage.Platform

/-!
# Resolution — settings from a command line and a manifest

A manifest is read when the command line names one, or when it names no
sources and there is one in the working directory. What the command line says
goes before what the manifest says. Paths on the command line start at the
working directory, so they are joined to it here and stay what they are
wherever the manifest stands.

The manifest and the root of the settings keep the bytes of the working
directory. Sources and the output are texts, so a joined one has what the
working directory is shown as.
-/

namespace StraightLine

namespace Settings

variable {m : Type → Type} [Monad m]

/-- The name of the manifest in a working directory. -/
def manifestName : Path := "osta.toml".toList

/-- The manifest to read, if there is one. -/
def manifestPath? (p : Platform m) (cwd : RawPath) (c : CommandLine) : m (Option RawPath) := do
  match c.manifest, c.sources with
  | some path, _ => return some (Utf8.encode path)
  | none, [] =>
    let path := Path.below cwd manifestName
    return if ← p.exists? path then some path else none
  | none, _ => return none

/-- The directory that a manifest is in. -/
def manifestRoot (cwd manifest : RawPath) : RawPath :=
  match Path.parent? manifest with
  | some (c :: parent) => Path.join cwd (c :: parent)
  | _ => cwd

/-- Reads a manifest and checks it. -/
def readManifest (p : Platform m) (cwd path : RawPath) : ExceptT Fault m Manifest := do
  p.log ⟨.debug, .settings, s!"Loading manifest {String.ofList (Utf8.lossy path)}"⟩
  let t ← p.readText (Path.join cwd path)
  let env ← p.values (Environment.namesIn t)
  match Manifest.ofText? env t with
  | .error e => throw e
  | .ok manifest =>
    match manifest.check with
    | .error e => throw e
    | .ok () => return manifest

/-- The settings before the command line is heard. -/
def start (p : Platform m) (cwd : RawPath) (c : CommandLine) : ExceptT Fault m Settings := do
  match ← (manifestPath? p cwd c : m (Option RawPath)) with
  | none => return ofSources cwd []
  | some path =>
    let manifest ← readManifest p cwd path
    match ofManifest manifest (manifestRoot cwd path) with
    | .error e => throw e
    | .ok s => return s

/-- The artifacts a command line wants, or else those of the settings. -/
def wantedKinds (s : Settings) (c : CommandLine) : Except Fault (List ArtifactKind) :=
  match c.kinds with
  | [] => .ok s.kinds
  | names => Check.kinds "--emit" names

/-- A path of a command line, written so that it can be joined to any root. -/
def relativeTo (cwd : RawPath) (p : Path) : Path :=
  if Path.isAbsolute p then p else Utf8.lossy (Path.below cwd p)

/-- Puts what a command line says in place of what settings say. -/
def override (s : Settings) (cwd : RawPath) (c : CommandLine) : Except Fault Settings :=
  (s.wantedKinds c).map fun kinds =>
    { s with
      sources := if c.sources = [] then s.sources else c.sources.map (relativeTo cwd)
      output := match c.output with
        | some o => relativeTo cwd o
        | none => s.output
      kinds := kinds
      monitor := c.monitor || s.monitor }

/-- The settings of a command line in a working directory. -/
def resolveFrom (p : Platform m) (cwd : RawPath) (c : CommandLine) : ExceptT Fault m Settings := do
  match (← start p cwd c).override cwd c with
  | .error e => throw e
  | .ok s => return s

/-- The settings of a command line. -/
def resolve (p : Platform m) (c : CommandLine) : ExceptT Fault m Settings := do
  resolveFrom p (← p.workingDirectory) c

end Settings

end StraightLine
