import StraightLine.Json.Reader
import StraightLine.Settings.Basic

/-!
# Stored settings — settings from JSON

Settings are stored as an object with five fields, each of them once, or as an
array of their values in order. Further fields of the object say nothing. A
kind is stored as its name, or as an object with its name and `null`.
-/

namespace StraightLine

namespace Settings

/-- The names of the fields, in order. -/
def fieldNames : List String := ["root", "sources", "output_path", "emit", "monitor"]

/-- A text. -/
def textOf : JsonForm → Except JsonError Text
  | .str (some t) => .ok t
  | _ => .error (.expected "string")

/-- A truth value. -/
def boolOf : JsonForm → Except JsonError Bool
  | .bool b => .ok b
  | _ => .error (.expected "boolean")

/-- A list. -/
def listOf (f : JsonForm → Except JsonError α) : JsonForm → Except JsonError (List α)
  | .arr items => items.mapM f
  | _ => .error (.expected "array")

/-- A kind by its exact name. -/
def kindNamed (name : Text) : Except JsonError ArtifactKind :=
  match ArtifactKind.all.find? fun k => k.name.toList == name with
  | some k => .ok k
  | none => .error (.expected "artifact kind")

/-- A kind. -/
def kindOf : JsonForm → Except JsonError ArtifactKind
  | .str (some name) => kindNamed name
  | .obj [(some name, .null)] => kindNamed name
  | _ => .error (.expected "artifact kind")

/-- The value of a field that has to be there once. -/
def fieldOf (fields : List (Text × JsonForm)) (name : String) : Except JsonError JsonForm :=
  match fields.filter fun f => f.1 == name.toList with
  | [] => .error (.missingField name)
  | [(_, v)] => .ok v
  | _ => .error (.duplicateField name)

/-- A field with the text of its key. -/
def named : Option Text × JsonForm → Except JsonError (Text × JsonForm)
  | (some name, v) => .ok (name, v)
  | (none, _) => .error .badEscape

/-- The values of the fields, in order. Every key of the object has to be a
text. -/
def valuesOf : JsonForm → Except JsonError (List JsonForm)
  | .obj fields => do fieldNames.mapM (fieldOf (← fields.mapM named))
  | .arr items => .ok items
  | _ => .error (.expected "settings")

/-- The settings of a JSON value. -/
def ofJson? (v : JsonForm) : Except JsonError Settings := do
  match ← valuesOf v with
  | [root, sources, output, kinds, monitor] =>
    .ok ⟨Utf8.encode (← textOf root), ← listOf textOf sources, ← textOf output,
      ← listOf kindOf kinds, ← boolOf monitor⟩
  | _ => .error (.expected "five values")

/-- The settings of a JSON text. -/
def ofText? (t : Text) : Except Fault Settings :=
  match JsonForm.ofText? t >>= ofJson? with
  | .ok s => .ok s
  | .error e => .error (.stored e.message)

end Settings

end StraightLine
