import StraightLine.Json.Basic
import StraightLine.Path.Basic

/-!
# Command lines — what a run is asked for

A command line names sources and may name a manifest, a directory for
artifacts, the artifacts that are wanted, and four switches.
-/

namespace StraightLine

/-- What a run is asked for; `kinds` are names as they were written. -/
structure CommandLine where
  sources : List Path
  manifest : Option Path
  output : Option Path
  kinds : List Text
  verbose : Bool
  monitor : Bool
  dryRun : Bool
  jsonLog : Bool
  deriving DecidableEq, Repr

namespace CommandLine

/-- A command line that asks for nothing. -/
def empty : CommandLine := ⟨[], none, none, [], false, false, false, false⟩

/-- A command line as JSON. -/
def toJson (c : CommandLine) : Json :=
  .obj
    [("sources".toList, .arr (c.sources.map .str)),
      ("config".toList, .ofOption .str c.manifest),
      ("output".toList, .ofOption .str c.output),
      ("emit".toList, .arr (c.kinds.map .str)),
      ("verbose".toList, .bool c.verbose),
      ("monitor".toList, .bool c.monitor),
      ("dry_run".toList, .bool c.dryRun),
      ("log_json".toList, .bool c.jsonLog)]

end CommandLine

end StraightLine
