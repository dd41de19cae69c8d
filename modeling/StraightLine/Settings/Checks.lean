import StraightLine.Artifact.Kind
import StraightLine.Fault.Basic

/-!
# Checks — what values settings may have

A check passes or names the first value that is wrong.
-/

namespace StraightLine

/-- The extension of every source. -/
def sourceExtension : Text := "osta".toList

namespace Check

/-- A path is not empty and has no null byte. -/
def path (field : String) (p : Path) : Except Fault Unit :=
  if p = [] then .error (.invalidValue field p "Path cannot be empty")
  else if p.contains '\x00' then .error (.invalidValue field p "Path contains null bytes")
  else .ok ()

/-- A text has a character that is not blank. -/
def nonEmpty (field : String) (t : Text) : Except Fault Unit :=
  if t.trim = [] then
    .error (.invalidValue field t "Value cannot be empty or whitespace-only")
  else .ok ()

/-- A file has one of some extensions. -/
def extension (field : String) (allowed : List Text) (file : Path) : Except Fault Unit :=
  match path field file with
  | .error e => .error e
  | .ok () =>
    match Path.extension? file with
    | none => .error (.invalidValue field file "File has no extension or invalid filename")
    | some e =>
      if allowed.contains e then .ok ()
      else
        let list := ", ".intercalate (allowed.map String.ofList)
        .error (.invalidValue field file
          s!"Unsupported file extension: {String.ofList e}. Allowed extensions: {list}")

/-- All files have one of some extensions. -/
def extensions (field : String) (allowed : List Text) : (files : List Path) → Except Fault Unit
  | [] => .ok ()
  | file :: files =>
    match extension field allowed file with
    | .error e => .error e
    | .ok () => extensions field allowed files

/-- There are sources, and all of them have their extension. -/
def sources (field : String) (files : List Path) : Except Fault Unit :=
  match files with
  | [] => .error (.missing field)
  | files => extensions field [sourceExtension] files

/-- Adds a kind unless it is there. -/
def addKind (kinds : List ArtifactKind) (k : ArtifactKind) : List ArtifactKind :=
  if kinds.contains k then kinds else kinds ++ [k]

/-- Reads the names of kinds, each kind once, in the order of their first
names. -/
def kindsFrom (field : String) : (kinds : List ArtifactKind) → (names : List Text) →
    Except Fault (List ArtifactKind)
  | kinds, [] => .ok kinds
  | kinds, n :: names =>
    match ArtifactKind.ofName? n with
    | some k => kindsFrom field (addKind kinds k) names
    | none =>
      let list := ", ".intercalate (ArtifactKind.all.map ArtifactKind.name)
      .error (.invalidValue field n s!"Unsupported emit kind. Valid kinds: {list}")

/-- The kinds of some names. -/
def kinds (field : String) (names : List Text) : Except Fault (List ArtifactKind) :=
  kindsFrom field [] names

end Check

end StraightLine
