import StraightLine.Json.Basic
import StraightLine.Manifest.Environment
import StraightLine.Settings.Checks
import StraightLine.Toml.Reader

/-!
# Manifests — a project and how it is built

A manifest names a project, lists its sources, and may say where artifacts go,
which ones are wanted, and whether phases are recorded. It is written in TOML,
in which the environment may have put values.
-/

namespace StraightLine

/-- What a project is called. -/
structure ProjectInfo where
  name : Text
  version : Text
  group : Option Text
  deriving DecidableEq, Repr

/-- How a project is built. -/
structure BuildInfo where
  sources : List Path
  output : Option Path
  kinds : Option (List Text)
  deriving DecidableEq, Repr

/-- A project and how it is built; `monitoring` says whether phases are
recorded. -/
structure Manifest where
  project : ProjectInfo
  build : BuildInfo
  monitoring : Option Bool
  deriving DecidableEq, Repr

/-- Why a TOML text is no manifest. -/
inductive ManifestError where
  | syntactic (e : TomlError)
  | missingField (name : String)
  | wrongType (name : String)
  deriving DecidableEq, Repr

/-- The error in words. -/
def ManifestError.message : ManifestError → String
  | syntactic e => e.message
  | missingField name => s!"missing field `{name}`"
  | wrongType name => s!"invalid type for `{name}`"

namespace Manifest

/-- The directory artifacts go to unless the manifest says another one. -/
def defaultOutput : Path := "./build".toList

/-- The values of a group of fields: those of a table under their names, or
those of an array in order, in which none may be left out. -/
def fieldsOf (what : String) (names : List String) : Toml → Except ManifestError Toml.Fields
  | .table _ fields => .ok fields
  | .array items =>
    if items.length < names.length then .error (.wrongType what)
    else .ok ((names.map String.toList).zip items)
  | .tables items =>
    if items.length < names.length then .error (.wrongType what)
    else .ok ((names.map String.toList).zip (items.map (Toml.table .header)))
  | _ => .error (.wrongType what)

/-- A text. -/
def asText (name : String) : Toml → Except ManifestError Text
  | .string t => .ok t
  | _ => .error (.wrongType name)

/-- A list of texts. -/
def asTexts (name : String) : Toml → Except ManifestError (List Text)
  | .array items => items.mapM (asText name)
  | _ => .error (.wrongType name)

/-- A truth value. -/
def asBool (name : String) : Toml → Except ManifestError Bool
  | .boolean b => .ok b
  | _ => .error (.wrongType name)

/-- A field that has to be there. -/
def required (fields : Toml.Fields) (name : String) (f : String → Toml → Except ManifestError α) :
    Except ManifestError α :=
  match fields.lookup name.toList with
  | some v => f name v
  | none => .error (.missingField name)

/-- A field that may be left out. -/
def optional (fields : Toml.Fields) (name : String) (f : String → Toml → Except ManifestError α) :
    Except ManifestError (Option α) :=
  match fields.lookup name.toList with
  | some v => (f name v).map some
  | none => .ok none

/-- What a project is called. -/
def projectOf (what : String) (v : Toml) : Except ManifestError ProjectInfo := do
  let fields ← fieldsOf what ["name", "version", "group"] v
  .ok ⟨← required fields "name" asText, ← required fields "version" asText,
    ← optional fields "group" asText⟩

/-- How a project is built. -/
def buildOf (what : String) (v : Toml) : Except ManifestError BuildInfo := do
  let fields ← fieldsOf what ["sources", "output_path", "emit"] v
  .ok ⟨← required fields "sources" asTexts, ← optional fields "output_path" asText,
    ← optional fields "emit" asTexts⟩

/-- Whether phases are recorded. -/
def monitoringOf (what : String) (v : Toml) : Except ManifestError Bool := do
  let fields ← fieldsOf what ["enabled"] v
  required fields "enabled" asBool

/-- The manifest of a TOML text; further fields say nothing. -/
def ofFields (fields : Toml.Fields) : Except ManifestError Manifest := do
  .ok ⟨← required fields "project" projectOf, ← required fields "build" buildOf,
    ← optional fields "monitoring" monitoringOf⟩

/-- The manifest of a TOML text. -/
def ofToml? (t : Text) : Except ManifestError Manifest :=
  match Toml.ofText? t with
  | .error e => .error (.syntactic e)
  | .ok fields => ofFields fields

/-- The manifest of a text in an environment. -/
def ofText? (env : Environment) (t : Text) : Except Fault Manifest :=
  match ofToml? (env.substitute t) with
  | .ok m => .ok m
  | .error e => .error (.setting "toml_parsing" s!"TOML parsing error: {e.message}")

/-- The directory artifacts go to. -/
def output (m : Manifest) : Path := m.build.output.getD defaultOutput

/-- The artifacts that are wanted; the code alone unless the manifest lists
others. -/
def kinds (m : Manifest) : Except Fault (List ArtifactKind) :=
  match m.build.kinds with
  | some names => Check.kinds "build.emit" names
  | none => .ok [.code]

/-- Whether phases are recorded. -/
def isMonitored (m : Manifest) : Bool := m.monitoring.getD false

/-- Checks every value of a manifest. -/
def check (m : Manifest) : Except Fault Unit := do
  Check.nonEmpty "project.name" m.project.name
  Check.nonEmpty "project.version" m.project.version
  Check.sources "build.sources" m.build.sources
  Check.path "build.output_path" m.output
  let _ ← m.kinds
  .ok ()

/-- A manifest as JSON. -/
def toJson (m : Manifest) : Json :=
  let texts (ts : List Text) : Json := .arr (ts.map .str)
  .obj
    [("project".toList, .obj
        [("name".toList, .str m.project.name), ("version".toList, .str m.project.version),
          ("group".toList, .ofOption .str m.project.group)]),
      ("build".toList, .obj
        [("sources".toList, texts m.build.sources),
          ("output_path".toList, .ofOption .str m.build.output),
          ("emit".toList, .ofOption texts m.build.kinds)]),
      ("monitoring".toList,
        .ofOption (fun b => .obj [("enabled".toList, .bool b)]) m.monitoring)]

end Manifest

end StraightLine
