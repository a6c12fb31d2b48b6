/-!
# Clock: readings and durations

A clock reading is a number of nanoseconds in 64 bits, and only differences of readings mean
anything. A clock that moves forward past the last reading starts again at zero. Durations are exact;
they are cut to 64 bits where they meet a clock.
-/

namespace CallProfiler

/-- A clock reading in nanoseconds. -/
abbrev Reading := UInt64

/-- A length of time, as an exact number of nanoseconds. -/
structure Duration where
  nanos : Nat
  deriving DecidableEq, Repr

namespace Duration

/-- Nanoseconds in a second. -/
def nanosPerSecond : Nat := 1000000000

/-- Nanoseconds in a millisecond. -/
def nanosPerMilli : Nat := 1000000

/-- A number of nanoseconds that fits a clock reading. -/
def ofNanos (nanos : UInt64) : Duration := ⟨nanos.toNat⟩

/-- A number of milliseconds. -/
def ofMillis (millis : UInt64) : Duration := ⟨millis.toNat * nanosPerMilli⟩

/-- A number of seconds and of nanoseconds beyond them. -/
def ofParts (seconds : UInt64) (nanos : Nat) : Duration := ⟨seconds.toNat * nanosPerSecond + nanos⟩

/-- The whole milliseconds in a duration. -/
def millis (d : Duration) : Nat := d.nanos / nanosPerMilli

/-- The lowest 64 bits of the number of nanoseconds. -/
def wrapped (d : Duration) : UInt64 := UInt64.ofNat d.nanos

/-- The number of nanoseconds, or the greatest 64-bit number if it is greater. -/
def capped (d : Duration) : UInt64 := UInt64.ofNat (min d.nanos (UInt64.size - 1))

end Duration

/-- The difference of two readings, zero if the first is earlier. -/
def saturatingSub (a b : UInt64) : UInt64 := if a < b then 0 else a - b

/-- The sum of two readings, or the greatest reading if the sum is greater. -/
def saturatingAdd (a b : UInt64) : UInt64 := UInt64.ofNat (min (a.toNat + b.toNat) (UInt64.size - 1))

/-- A movement of a hand-driven clock. -/
inductive ClockStep where
  | advance (nanos : UInt64)
  | advanceMillis (millis : UInt64)
  | advanceBy (duration : Duration)
  | set (reading : Reading)
  | read
  deriving DecidableEq, Repr

/-- The reading after a movement of the clock. -/
def ClockStep.apply (now : Reading) : ClockStep → Reading
  | .advance nanos => now + nanos
  | .advanceMillis millis => now + (Duration.ofMillis millis).wrapped
  | .advanceBy duration => now + duration.wrapped
  | .set reading => reading
  | .read => now

end CallProfiler
