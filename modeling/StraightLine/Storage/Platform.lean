import StraightLine.Build.Run
import StraightLine.Manifest.Environment
import StraightLine.Storage.FileSystem

/-!
# Platforms — files, variables and a log

A platform is what a run may ask of the place it runs in: its working directory
first, which is not there when someone has removed it. Storage below a directory
joins every path to it, so absolute paths stay as they are, and makes the
directories that a file it writes needs. A machine is a platform that is a value.

Files are found under paths in bytes. Where one is told about, it is shown as a
text.
-/

namespace StraightLine

/-- A path that is written as a text, below a directory. -/
def Path.below (root : RawPath) (p : Path) : RawPath := join root (Utf8.encode p)

/-- What a run may ask of the place it runs in. -/
structure Platform (m : Type → Type) where
  workingDirectory : ExceptT Fault m RawPath
  valueOf? : Text → m (Option Text)
  exists? : RawPath → m Bool
  read : RawPath → ExceptT Fault m Bytes
  makeDirectories : RawPath → ExceptT Fault m Unit
  write : RawPath → Bytes → ExceptT Fault m Unit
  log : LogRecord → m Unit

namespace Platform

variable {m : Type → Type} [Monad m]

/-- Reads a file below a directory. -/
def readBelow (p : Platform m) (root : RawPath) (path : Path) : ExceptT Fault m Bytes := do
  let full := Path.below root path
  p.log ⟨.debug, .files, s!"Reading {String.ofList (Utf8.lossy full)}"⟩
  p.read full

/-- Writes a file below a directory. -/
def writeBelow (p : Platform m) (root : RawPath) (path : Path) (bytes : Bytes) :
    ExceptT Fault m Unit := do
  let full := Path.below root path
  match Path.parent? full with
  | some parent => p.makeDirectories parent
  | none => pure ()
  p.log ⟨.debug, .files, s!"Writing {bytes.length} bytes to {String.ofList (Utf8.lossy full)}"⟩
  p.write full bytes

/-- Reads a file that has to be a text. -/
def readText (p : Platform m) (path : RawPath) : ExceptT Fault m Text := do
  match Utf8.decode (← p.read path) with
  | .ok t => return t
  | .error _ => throw (.file "stream did not contain valid UTF-8")

/-- What a lexing error says about a file that cannot be read. -/
def unreadable : Fault → LexError
  | .file m => .unreadable m
  | f => .unreadable f.message

/-- The tokens of a file. -/
def tokensOf (p : Platform m) (path : RawPath) : ExceptT LexError m (List Token) := do
  let t ← (p.readText path).adapt unreadable
  match tokenize t with
  | .ok ts => return ts
  | .error e => throw e

/-- The values of those names that have one. -/
def values (p : Platform m) : List Text → m Environment
  | [] => return []
  | n :: names => do
    match ← p.valueOf? n with
    | some v => return (n, v) :: (← p.values names)
    | none => p.values names

/-- The host of a build below a directory. -/
def host (p : Platform m) (root : RawPath) : Host m where
  read := p.readBelow root
  write := p.writeBelow root
  log := p.log

end Platform

/-- Variables, a file system, and what has been told, the latest first. -/
structure Machine where
  environment : Environment
  files : FileSystem
  log : List LogRecord

namespace Machine

/-- Before anything is told. -/
def ofFiles (environment : Environment) (files : FileSystem) : Machine :=
  ⟨environment, files, []⟩

/-- The error of a file system as a fault. -/
def orFault (r : Except FileError α) : Except Fault α :=
  match r with
  | .ok a => .ok a
  | .error e => .error (.file e.message)

/-- Reads from the files of a machine. -/
def read (s : Machine) (p : RawPath) : Except Fault Bytes := orFault (s.files.read p)

/-- Makes directories on a machine. -/
def makeDirectories (p : RawPath) (s : Machine) : Except Fault Unit × Machine :=
  let (r, files) := s.files.makeDirectories p
  (orFault r, { s with files := files })

/-- Writes a file on a machine. -/
def write (p : RawPath) (bytes : Bytes) (s : Machine) : Except Fault Unit × Machine :=
  match s.files.write p bytes with
  | .ok files => (.ok (), { s with files := files })
  | .error e => (.error (.file e.message), s)

/-- Takes a record into the log of a machine. -/
def tell (r : LogRecord) (s : Machine) : Machine := { s with log := r :: s.log }

/-- A machine as a platform. -/
def platform : Platform (StateM Machine) where
  workingDirectory := ExceptT.mk fun s => (.ok (FileSystem.pathOf s.files.workingDirectory), s)
  valueOf? n := fun s => (s.environment.value? n, s)
  exists? p := fun s => (s.files.exists? p, s)
  read p := ExceptT.mk fun s => (s.read p, s)
  makeDirectories p := ExceptT.mk (makeDirectories p)
  write p bytes := ExceptT.mk (write p bytes)
  log r := fun s => ((), tell r s)

end Machine

end StraightLine
