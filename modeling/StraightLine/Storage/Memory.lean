import StraightLine.Build.Run

/-!
# Memory — files that are only held

Files are looked up under their paths as they are written; what is written is
kept apart in order and cannot be read. One path may be refused.
-/

namespace StraightLine

/-- Files to read and files written, the latest first. -/
structure Memory where
  files : List (Path × Bytes)
  refused : Option Path
  written : List (Path × Bytes)
  deriving DecidableEq, Repr

namespace Memory

/-- Nothing written yet. -/
def ofFiles (files : List (Path × Bytes)) (refused : Option Path) : Memory := ⟨files, refused, []⟩

/-- The contents under a path. -/
def read (s : Memory) (path : Path) : Except Fault Bytes :=
  match s.files.lookup path with
  | some bytes => .ok bytes
  | none => .error (.file s!"File not found: {String.ofList path}")

/-- Keeps what is written, unless the path is refused. -/
def write (s : Memory) (path : Path) (bytes : Bytes) : Except Fault Unit × Memory :=
  if s.refused = some path then (.error (.file s!"Write refused: {String.ofList path}"), s)
  else (.ok (), { s with written := (path, bytes) :: s.written })

/-- A host that tells nothing. -/
def host : Host (StateM Memory) where
  read path := ExceptT.mk fun s => (s.read path, s)
  write path bytes := ExceptT.mk fun s => s.write path bytes
  log _ := fun s => ((), s)

end Memory

end StraightLine
