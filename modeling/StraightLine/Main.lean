import StraightLine.Json.Basic
import StraightLine.Session.Basic

/-!
# Main — sessions on the operating system

Files are known by texts here, so those under a path that is no text cannot be
reached.
-/

namespace StraightLine

namespace Main

/-- What the operating system says about an error. -/
def describe : IO.Error → String
  | .alreadyExists _ code details => s!"{details} (os error {code})"
  | .otherError code details => s!"{details} (os error {code})"
  | .resourceBusy code details => s!"{details} (os error {code})"
  | .resourceVanished code details => s!"{details} (os error {code})"
  | .unsupportedOperation code details => s!"{details} (os error {code})"
  | .hardwareFault code details => s!"{details} (os error {code})"
  | .unsatisfiedConstraints code details => s!"{details} (os error {code})"
  | .illegalOperation code details => s!"{details} (os error {code})"
  | .protocolError code details => s!"{details} (os error {code})"
  | .timeExpired code details => s!"{details} (os error {code})"
  | .interrupted _ code details => s!"{details} (os error {code})"
  | .noFileOrDirectory _ code details => s!"{details} (os error {code})"
  | .invalidArgument _ code details => s!"{details} (os error {code})"
  | .permissionDenied _ code details => s!"{details} (os error {code})"
  | .resourceExhausted _ code details => s!"{details} (os error {code})"
  | .inappropriateType _ code details => s!"{details} (os error {code})"
  | .noSuchThing _ code details => s!"{details} (os error {code})"
  | .unexpectedEof => "unexpected end of file"
  | .userError message => message

/-- Does something that the operating system may refuse. -/
def attempt (action : IO α) : ExceptT Fault IO α := do
  match ← (action.toBaseIO : IO (Except IO.Error α)) with
  | .ok a => return a
  | .error e => throw (.file (describe e))

/-- Does something with the file of a path, which cannot hold a null byte. -/
def withPath (path : RawPath) (action : String → IO α) : ExceptT Fault IO α := do
  match Utf8.decode path with
  | .error e => throw (.file e.message)
  | .ok file =>
    if file.contains '\x00' then throw (.file "file name contained an unexpected NUL byte")
    attempt (action (String.ofList file))

/-- Whether there is something at a path. -/
def isThere (path : RawPath) : IO Bool := do
  match Utf8.decode path with
  | .error _ => return false
  | .ok file =>
    try
      let _ ← IO.FS.Handle.mk (String.ofList file) .read
      return true
    catch
      | .noFileOrDirectory .. => return false
      | .inappropriateType .. => return false
      | _ => return true

/-- Makes a directory and those it is in, going up at most so many times. -/
def makeDirectories : Nat → Path → IO Unit
  | 0, path => IO.FS.createDir (String.ofList path)
  | n + 1, path => do
    try IO.FS.createDir (String.ofList path)
    catch
      | .noFileOrDirectory file code details =>
        match Path.parent? path with
        | some parent =>
          makeDirectories n parent
          IO.FS.createDir (String.ofList path)
        | none => throw (.noFileOrDirectory file code details)
      | .alreadyExists .. => IO.FS.createDirAll (String.ofList path)
      | e => throw e

/-- A record as one line of JSON. -/
def line (r : LogRecord) : Text :=
  (Json.obj [("level".toList, .ofString r.level.name),
    ("fields".toList, .obj [("message".toList, .ofString r.message)])]).compact

/-- Shows a record, as JSON beside the output or as a line of it. -/
def log (json : Bool) (r : LogRecord) : IO Unit :=
  if json then IO.eprintln (String.ofList (line r)) else IO.println s!"{r.level.name} {r.message}"

/-- The operating system as a platform. -/
def platform (json : Bool) : Platform IO where
  workingDirectory := attempt do return Utf8.encode (← IO.currentDir).toString.toList
  valueOf? name := return (← IO.getEnv (String.ofList name)).map String.toList
  exists? := isThere
  read path := withPath path fun file =>
    IO.FS.withFile file .read fun handle => return (← handle.readBinToEnd).toList
  makeDirectories path := withPath path fun file =>
    Main.makeDirectories file.length file.toList
  write path bytes := withPath path fun file => IO.FS.writeBinFile file ⟨bytes.toArray⟩
  log := log json

/-- Whether records are wanted as JSON. -/
def wantsJson (words : List Text) : Bool :=
  match CommandLine.ofWords? words with
  | .ok c => c.jsonLog
  | .error _ => false

end Main

end StraightLine

open StraightLine in
/-- Runs a session in the working directory. -/
def main (words : List String) : IO UInt32 := do
  let words := words.map String.toList
  let outcome ← Session.run (Main.platform (Main.wantsJson words)) words
  IO.print outcome.shown
  IO.eprint outcome.complaint
  return outcome.status.toUInt32
