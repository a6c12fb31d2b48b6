import CallProfiler.Clock

/-!
# Sampling.Warmup: a window in which nothing is monitored

The window ends with the first check that has more than a given number of checks up to and including
it and that is not made before a deadline. From then on it stays ended, and checks are no longer
counted. The period is cut to 64 bits before the deadline is computed, and the deadline is not moved
past the last reading.
-/

namespace CallProfiler

/-- The state of a warmup window. -/
structure Warmup where
  /-- How many checks at least fall into the window. -/
  requests : UInt64
  /-- The first reading at which the window may end. -/
  deadline : Reading
  /-- The checks counted so far. -/
  seen : UInt64 := 0
  /-- Whether the window has ended. -/
  ended : Bool := false
  deriving DecidableEq, Repr

namespace Warmup

/-- A window that starts now. -/
def start (requests : UInt64) (period : Duration) (now : Reading) : Warmup where
  requests := requests
  deadline := saturatingAdd now period.wrapped

/-- Counts one check and says whether the window has ended. -/
def check (w : Warmup) (now : Reading) : Bool × Warmup :=
  if w.ended then (true, w)
  else
    let seen := w.seen + 1
    let ended : Bool := w.requests < seen && w.deadline ≤ now
    (ended, { w with seen := seen, ended := ended })

end Warmup

end CallProfiler
