import StraightLine.Build.Run
import StraightLine.Manifest.Basic

/-!
# Settings — everything one build needs
-/

namespace StraightLine

/-- Everything one build needs; relative paths start at `root`. -/
structure Settings where
  root : RawPath
  sources : List Path
  output : Path
  kinds : List ArtifactKind
  monitor : Bool
  deriving DecidableEq, Repr

namespace Settings

/-- The settings without a manifest. -/
def ofSources (root : RawPath) (sources : List Path) : Settings :=
  ⟨root, sources, Manifest.defaultOutput, [.code], false⟩

/-- The settings of a manifest in the directory `root`. -/
def ofManifest (m : Manifest) (root : RawPath) : Except Fault Settings :=
  m.kinds.map fun kinds => ⟨root, m.build.sources, m.output, kinds, m.isMonitored⟩

/-- Checks every value: sources first, then the output, then the artifacts. -/
def check (s : Settings) : Except Fault Unit := do
  Check.sources "sources" s.sources
  Check.path "output_path" s.output
  if s.kinds = [] then .error (.missing "emit") else .ok ()

/-- What the build is asked for. -/
def request (s : Settings) : BuildRequest := ⟨s.sources, s.output, s.kinds⟩

/-- What a build would read and write, one item a line. -/
def summary (s : Settings) : String :=
  let sources := s.sources.map fun p => s!"📄 Source: {String.ofList p}"
  let kinds := ", ".intercalate (s.kinds.map ArtifactKind.name)
  "\n".intercalate
    (s!"📁 Root: {String.ofList (Utf8.lossy s.root)}" :: sources ++
      [s!"📁 Output: {String.ofList s.output}", s!"🧾 Emit: {kinds}"])

/-- Settings as JSON, which has no place for a root that is no text. -/
def toJson (s : Settings) : Except Fault Json :=
  match Utf8.decode s.root with
  | .error _ => .error (.stored "path contains invalid UTF-8 characters")
  | .ok root =>
    .ok (.obj
      [("root".toList, .str root), ("sources".toList, .arr (s.sources.map .str)),
        ("output_path".toList, .str s.output),
        ("emit".toList, .arr (s.kinds.map fun k => .ofString k.name)),
        ("monitor".toList, .bool s.monitor)])

end Settings

end StraightLine
