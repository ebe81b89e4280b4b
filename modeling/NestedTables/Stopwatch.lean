import NestedTables.Calendar.Date

/-!
# Stopwatches

How long a named activity took, in units of a tenth of a millisecond. The unit is the last
place of the seconds that are shown.
-/

namespace NestedTables

/-- A named activity and how long it took; nothing as long as it has not ended. -/
structure Stopwatch where
  label : String
  /-- Tenths of a millisecond. -/
  elapsed : Nat := 0
deriving DecidableEq, Repr

namespace Stopwatch

/-- The seconds with four places. -/
def seconds (w : Stopwatch) : String :=
  s!"{w.elapsed / 10000}." ++ String.ofList (Date.zeroPadded 4 (w.elapsed % 10000))

/-- The stopwatch in one line. -/
def shown (w : Stopwatch) : String :=
  s!"<Timer {w.label}: {w.seconds}s>"

end Stopwatch

end NestedTables
