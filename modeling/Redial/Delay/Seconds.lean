import Redial.Binary64
import Redial.Duration

/-!
# Durations as doubles

A duration as a double number of seconds, and back. The way there rounds three times: the whole
seconds, the fraction, and their sum. The way back rounds once, to the nearest nanosecond with ties
to the even one.
-/

namespace Redial.Duration

/-- The seconds of a duration as a double, counted in units of the smallest double. -/
def toUnits (d : Duration) : Nat :=
  let whole := Binary64.nearest (d.seconds * Binary64.one) 1
  let part := Binary64.nearest (d.subsecNanos * Binary64.one) 1_000_000_000
  Binary64.nearest (whole + part) 1

/-- The duration of so many units of seconds, if it is not too long for a duration. -/
def ofUnits? (units : Nat) : Option Duration :=
  let nanos := Binary64.nearestQuotient (units * 1_000_000_000) Binary64.one
  if h : nanos < UInt64.size * 1_000_000_000 then some ⟨nanos, h⟩ else none

end Redial.Duration
