/-!
# Limits and reports of the search for cycles
-/

namespace CppDeps

/-- How many cycles to report and how long a cycle may be; `none` sets no limit. -/
structure CycleLimits where
  maxCycles : Option Nat := none
  maxCycleLength : Option Nat := none
  deriving DecidableEq, Repr

namespace CycleLimits

/-- No limits. -/
def unbounded : CycleLimits := {}

/-- The limits with a cap on the number of cycles. -/
def withMaxCycles (limits : CycleLimits) (count : Nat) : CycleLimits :=
  { limits with maxCycles := some count }

/-- The limits with a cap on the length of a cycle. -/
def withMaxCycleLength (limits : CycleLimits) (length : Nat) : CycleLimits :=
  { limits with maxCycleLength := some length }

end CycleLimits

/-- The cycles that a search found. -/
structure CycleReport where
  /-- Each cycle names its files once, the one added first in front. -/
  cycles : List (List String)
  /-- Did the cap on the number of cycles end the search early? -/
  truncated : Bool
  deriving DecidableEq, Repr

namespace CycleReport

/-- The number of cycles reported. -/
def length (report : CycleReport) : Nat :=
  report.cycles.length

/-- Is there no cycle in the report? -/
def isEmpty (report : CycleReport) : Bool :=
  report.cycles.isEmpty

end CycleReport

/-- The cycles recorded so far, as lists of nodes. -/
structure Tally (n : Nat) where
  cycles : Array (List (Fin n))
  truncated : Bool

namespace Tally

variable {n : Nat}

/-- No cycles yet. -/
def empty : Tally n where
  cycles := #[]
  truncated := false

/-- Records a cycle, or marks the tally as truncated if the cap is reached already. -/
def record (limits : CycleLimits) (tally : Tally n) (cycle : List (Fin n)) : Tally n :=
  if limits.maxCycles.any fun cap => decide (cap ≤ tally.cycles.size) then
    { tally with truncated := true }
  else { tally with cycles := tally.cycles.push cycle }

end Tally

end CppDeps
