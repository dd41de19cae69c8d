/-!
# Phase monitors — which phases have been finished

How long a phase took and how much memory it had is left out, and so are the
records that tell it (`📊`).
-/

namespace StraightLine

/-- The phases finished so far, when they are recorded. -/
structure PhaseMonitor where
  enabled : Bool
  phases : List String
  deriving DecidableEq, Repr

namespace PhaseMonitor

/-- Before the first phase. -/
def start (enabled : Bool) : PhaseMonitor := ⟨enabled, []⟩

/-- After a phase. -/
def finish (m : PhaseMonitor) (phase : String) : PhaseMonitor :=
  if m.enabled then { m with phases := m.phases ++ [phase] } else m

end PhaseMonitor

end StraightLine
