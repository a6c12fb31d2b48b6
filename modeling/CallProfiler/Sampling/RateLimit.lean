import CallProfiler.Config.Basic
import CallProfiler.Sampling.TokenBucket

/-!
# Sampling.RateLimit: a number of admissions per minute

A limit either admits everything or takes one credit per admission out of a bucket. The bucket of a
positive rate holds what comes in within a second, but at least one credit; a rate that is not
positive has an empty bucket that never fills.
-/

namespace CallProfiler

/-- A gate for a number of admissions per minute. -/
inductive RateLimit where
  | unlimited
  | limited (bucket : TokenBucket Float)
  deriving Repr

namespace RateLimit

/-- The gate for a rate, with a full bucket. -/
def perMinute (rate : Float) (now : Reading) : RateLimit :=
  if rate ≥ unlimitedRatePerMinute then .unlimited
  else if rate.isNaN || rate ≤ 0.0 then .limited (.full 0.0 0.0 now)
  else
    let perSecond := rate / 60.0
    .limited (.full perSecond (if perSecond < 1.0 then 1.0 else perSecond) now)

/-- Asks for one admission. -/
def request (limit : RateLimit) (now : Reading) : Bool × RateLimit :=
  match limit with
  | .unlimited => (true, .unlimited)
  | .limited bucket =>
    let (admitted, bucket) := bucket.request now 1.0
    (admitted, .limited bucket)

/-- Whether the gate admits everything. -/
def isUnlimited : RateLimit → Bool
  | .unlimited => true
  | .limited _ => false

/-- The description of a gate. -/
def describe : RateLimit → String
  | .unlimited => "Unlimited"
  | .limited bucket => "Limited(" ++ bucket.describe ++ ")"

end RateLimit

end CallProfiler
