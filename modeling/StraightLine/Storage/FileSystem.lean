import StraightLine.Path.Basic
import StraightLine.Text.Utf8

/-!
# File systems — directories and files under their names

A file system maps lists of names to directories and files; the empty list is
the root. Looking a path up goes from directory to directory: every segment
but the last has to lead to one, and two dots lead back. Relative paths start
at the working directory. Names and paths are bytes, which need not stand for a
text; a name has at most 255 of them and a path fewer than 4096.
-/

namespace StraightLine

/-- Why the file system refuses. -/
inductive FileError where
  | noEntry
  | alreadyThere
  | notDirectory
  | isDirectory
  | nameTooLong
  | nullByte
  deriving DecidableEq, Repr

namespace FileError

/-- The error in words. -/
def message : FileError → String
  | noEntry => "No such file or directory (os error 2)"
  | alreadyThere => "File exists (os error 17)"
  | notDirectory => "Not a directory (os error 20)"
  | isDirectory => "Is a directory (os error 21)"
  | nameTooLong => "File name too long (os error 36)"
  | nullByte => "file name contained an unexpected NUL byte"

end FileError

/-- What is found under a name. -/
inductive Entry where
  | directory
  | file (bytes : Bytes)
  deriving DecidableEq, Repr

/-- The names from the root to an entry. -/
abbrev Location := List Bytes

/-- Entries under their locations, and the directory relative paths start
at. -/
structure FileSystem where
  entries : List (Location × Entry)
  workingDirectory : Location
  deriving DecidableEq, Repr

namespace FileSystem

open PathChar

/-- What is found at a location. -/
def at? (fs : FileSystem) (l : Location) : Option Entry :=
  if l = [] then some .directory else fs.entries.lookup l

/-- Puts an entry at a location, in place of what is there. -/
def put (fs : FileSystem) (l : Location) (e : Entry) : FileSystem :=
  { fs with entries := (l, e) :: fs.entries.filter fun x => x.1 != l }

/-- Whether a name has more bytes than any entry can have. -/
def isTooLong (name : Bytes) : Bool := 255 < name.length

/-- Why a path leads nowhere, whatever there is. -/
def refusal? (p : RawPath) : Option FileError :=
  if p.contains 0 then some .nullByte
  else if p = [] then some .noEntry
  else if 4096 ≤ p.length then some .nameTooLong
  else none

/-- Goes on from a directory by one segment. -/
def enter (fs : FileSystem) (l : Location) (segment : Bytes) : Except FileError Location :=
  match fs.at? l with
  | none => .error .noEntry
  | some (.file _) => .error .notDirectory
  | some .directory =>
    if Path.isIdle segment then .ok l
    else if segment = [dot, dot] then .ok l.dropLast
    else if isTooLong segment then .error .nameTooLong
    else
      match fs.at? (l ++ [segment]) with
      | some _ => .ok (l ++ [segment])
      | none => .error .noEntry

/-- Goes on from a location by some segments. -/
def walk (fs : FileSystem) (l : Location) : List Bytes → Except FileError Location
  | [] => .ok l
  | s :: ss =>
    match fs.enter l s with
    | .error e => .error e
    | .ok l => walk fs l ss

/-- Where a path starts. -/
def startOf (fs : FileSystem) (p : RawPath) : Location :=
  if Path.isAbsolute p then [] else fs.workingDirectory

/-- The location of a path. -/
def locate (fs : FileSystem) (p : RawPath) : Except FileError Location :=
  match refusal? p with
  | some e => .error e
  | none => fs.walk (fs.startOf p) (Path.segments p)

/-- Whether a path leads anywhere. -/
def exists? (fs : FileSystem) (p : RawPath) : Bool := (fs.locate p).toBool

/-- Whether a path leads to a directory. -/
def isDirectory (fs : FileSystem) (p : RawPath) : Bool :=
  match fs.locate p with
  | .ok l => fs.at? l == some .directory
  | .error _ => false

/-- The contents of a file. -/
def read (fs : FileSystem) (p : RawPath) : Except FileError Bytes :=
  match fs.locate p with
  | .error e => .error e
  | .ok l =>
    match fs.at? l with
    | some (.file bytes) => .ok bytes
    | some .directory => .error .isDirectory
    | none => .error .noEntry

/-- A path without the slashes at its end. -/
def unslashed (p : RawPath) : RawPath := (p.reverse.dropWhile (· == slash)).reverse

/-- The directory that holds the last segment of a path, and that segment.
Slashes at the end of the path say nothing. -/
def locateLast (fs : FileSystem) (p : RawPath) : Except FileError (Location × Bytes) :=
  match refusal? p with
  | some e => .error e
  | none =>
    let segments := Path.segments (if unslashed p = [] then p else unslashed p)
    match fs.walk (fs.startOf p) segments.dropLast with
    | .error e => .error e
    | .ok l =>
      match fs.at? l with
      | some .directory => .ok (l, segments.getLastD [])
      | some (.file _) => .error .notDirectory
      | none => .error .noEntry

/-- Makes a directory where nothing is yet. The root is always there. -/
def makeDirectory (fs : FileSystem) (p : RawPath) : Except FileError FileSystem :=
  match fs.locateLast p with
  | .error e => .error e
  | .ok (l, name) =>
    if Path.isIdle name ∨ name = [dot, dot] then .error .alreadyThere
    else if isTooLong name then .error .nameTooLong
    else
      match fs.at? (l ++ [name]) with
      | some _ => .error .alreadyThere
      | none => .ok (fs.put (l ++ [name]) .directory)

/-- A path and the paths above it, as far as they can be made. -/
def ancestors : (steps : Nat) → RawPath → List RawPath
  | 0, _ => []
  | n + 1, p =>
    match Path.parent? p with
    | none => []
    | some parent => if p = [] then [] else p :: ancestors n parent

/-- Makes the first of some directories after those below it in the list, as
far as they are not there. -/
def makeFirst (fs : FileSystem) : List RawPath → Except FileError Unit × FileSystem
  | [] => (.ok (), fs)
  | p :: above =>
    match fs.makeDirectory p with
    | .ok fs => (.ok (), fs)
    | .error .alreadyThere => (if fs.isDirectory p then .ok () else .error .alreadyThere, fs)
    | .error .noEntry =>
      match makeFirst fs above with
      | (.error e, fs) => (.error e, fs)
      | (.ok (), fs) =>
        match fs.makeDirectory p with
        | .ok fs => (.ok (), fs)
        | .error e =>
          (if e = .alreadyThere ∧ fs.isDirectory p then .ok () else .error e, fs)
    | .error e => (.error e, fs)

/-- Makes a directory and those above it, as far as they are not there. What
could be made stays when a later one cannot. -/
def makeDirectories (fs : FileSystem) (p : RawPath) : Except FileError Unit × FileSystem :=
  fs.makeFirst (ancestors (p.length + 1) p)

/-- Writes a file, in place of one that is there. A path with a slash at its
end can only be that of a directory. -/
def write (fs : FileSystem) (p : RawPath) (bytes : Bytes) : Except FileError FileSystem :=
  match fs.locateLast p with
  | .error e => .error e
  | .ok (l, name) =>
    if unslashed p ≠ p ∨ Path.isIdle name ∨ name = [dot, dot] then .error .isDirectory
    else if isTooLong name then .error .nameTooLong
    else
      match fs.at? (l ++ [name]) with
      | some .directory => .error .isDirectory
      | _ => .ok (fs.put (l ++ [name]) (.file bytes))

/-! ## Building and comparing -/

/-- No entries but the directories on the way to a working directory. -/
def empty (workingDirectory : Location) : FileSystem :=
  ⟨(List.range workingDirectory.length).map fun n =>
    (workingDirectory.take (n + 1), .directory), workingDirectory⟩

/-- Adds a file of the working directory together with the directories on the
way to it; a path that ends in a slash adds a directory. -/
def add (fs : FileSystem) (p : RawPath) (bytes : Bytes) : FileSystem :=
  let fs := match Path.parent? p with
    | some parent => (fs.makeDirectories parent).2
    | none => fs
  if p.getLast? = some slash then (fs.makeDirectories p).2
  else
    match fs.write p bytes with
    | .ok fs => fs
    | .error _ => fs

/-- A working directory with some files. -/
def ofFiles (workingDirectory : Location) (files : List (RawPath × Bytes)) : FileSystem :=
  files.foldl (fun fs f => fs.add f.1 f.2) (empty workingDirectory)

/-- The absolute path of a location. -/
def pathOf (l : Location) : RawPath := slash :: Path.joined l

/-- The files that are new or have other contents than before. -/
def changesSince (fs before : FileSystem) : List (RawPath × Bytes) :=
  fs.entries.filterMap fun x =>
    match x.2 with
    | .directory => none
    | .file bytes => if before.at? x.1 = some x.2 then none else some (pathOf x.1, bytes)

end FileSystem

end StraightLine
