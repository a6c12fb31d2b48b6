import CallProfiler.Clock
import CallProfiler.Decimal.Notation

/-!
# Sampling.TokenBucket: credits that come back over time

A bucket holds credits up to a bound, starts full, and gains credits at a constant rate. It is filled
only when it is asked: a request first adds what has come in since the last request, cut at the bound,
and is then admitted if its cost is there. A request that is not admitted keeps what was added.

The bucket is written for any kind of number (`Credit`): the profiler counts in floats, and the exact
laws of the bucket can be stated over fractions.
-/

namespace CallProfiler

/-- The numbers that credits are counted in. -/
class Credit (κ : Type) extends Add κ, Sub κ, Mul κ, Div κ where
  /-- A number of nanoseconds. -/
  ofNanos : UInt64 → κ
  /-- Nanoseconds in a second. -/
  perSecond : κ
  /-- The smaller of two numbers. -/
  least : κ → κ → κ
  /-- Whether the first number is at least the second. -/
  covers : κ → κ → Bool

/-- The smaller of two floats. Of two equal ones, which are zeros of different sign at most, it is the
second; a NaN gives way to the other one. -/
def leastFloat (a b : Float) : Float := if a < b || b.isNaN then a else b

instance : Credit Float where
  ofNanos n := n.toFloat
  perSecond := 1e9
  least := leastFloat
  covers a b := a ≥ b

/-- A bucket of credits. -/
structure TokenBucket (κ : Type) where
  /-- What comes in per nanosecond. -/
  rate : κ
  /-- How many credits the bucket holds at most. -/
  bound : κ
  /-- The credits at the last request. -/
  balance : κ
  /-- When the last request was made. -/
  refilledAt : Reading
  deriving DecidableEq, Repr

namespace TokenBucket

variable {κ : Type} [Credit κ]

/-- A full bucket that gains `perSecond` credits a second. -/
def full (perSecond bound : κ) (now : Reading) : TokenBucket κ :=
  ⟨perSecond / Credit.perSecond, bound, bound, now⟩

/-- What comes in per second. -/
def creditsPerSecond (bucket : TokenBucket κ) : κ := bucket.rate * Credit.perSecond

/-- Adds the credits that have come in since the last request. A clock that has moved backwards adds
none. -/
def refill (bucket : TokenBucket κ) (now : Reading) : TokenBucket κ :=
  let gained := Credit.ofNanos (saturatingSub now bucket.refilledAt) * bucket.rate
  { bucket with balance := Credit.least (bucket.balance + gained) bucket.bound, refilledAt := now }

/-- A request for some credits at a reading: whether it is admitted, and the bucket after it. -/
def request (bucket : TokenBucket κ) (now : Reading) (cost : κ) : Bool × TokenBucket κ :=
  let filled := bucket.refill now
  if Credit.covers filled.balance cost then
    (true, { filled with balance := filled.balance - cost })
  else (false, filled)

/-- The description of a bucket of floats. -/
def describe (bucket : TokenBucket Float) : String :=
  let write := Decimal.FloatNotation.inspected.write
  "RateLimiter \x7b credits_per_second: " ++ write bucket.creditsPerSecond ++
    ", max_balance: " ++ write bucket.bound ++
    ", bucket: Bucket \x7b balance: " ++ write bucket.balance ++
    ", last_refill: " ++ toString bucket.refilledAt.toNat ++ " \x7d \x7d"

end TokenBucket

end CallProfiler
