import Redial.Delay.Jitter
import Redial.Delay.Seconds
import Redial.Binary64.Shortest

/-!
# Backoff

How long a call pauses before each retry: a first delay that grows by a factor from retry to retry
up to a cap, with some jitter. The growth is computed with doubles; whatever is not an ordinary
number of seconds, or lies beyond the cap, becomes the cap itself.
-/

namespace Redial.Delay

inductive TooLong where
  | seconds
  deriving DecidableEq

def TooLong.message : TooLong → String
  | .seconds => "cannot convert float seconds to Duration: value is either too big or NaN"

/-- The delays between the attempts of a call. -/
structure Backoff where
  first : Duration
  cap : Duration
  factor : Binary64
  jitter : Jitter
  deriving DecidableEq

namespace Backoff

def unitFactor : Binary64 := .finite false Binary64.one

def immediate : Backoff := ⟨.zero, .zero, unitFactor, .none⟩

/-- A steady tenth of a second, capped at half a minute. -/
def usual : Backoff := ⟨.ofMillis 100, .ofMillis 30000, unitFactor, .none⟩

instance : Inhabited Backoff := ⟨usual⟩

/-- `first` growing by `factor` up to `cap`, without jitter. -/
def exponential (first cap : Duration) (factor : Binary64) : Backoff := ⟨first, cap, factor, .none⟩

/-- No delay can be longer than nothing, as far as cap, first delay and jitter tell. -/
def isImmediate (b : Backoff) : Bool :=
  b.cap = .zero || (b.first = .zero && b.jitter != .decorrelated)

def maxExponent : Nat := UInt32.size / 2 - 1

/-- The seconds before retry number `retry`, counted from zero, as a double. -/
def growth (b : Backoff) (retry : Nat) : Binary64 :=
  .finite false b.first.toUnits * b.factor.power (min retry maxExponent)

def base (b : Backoff) (retry : Nat) : Except TooLong Duration :=
  match b.growth retry with
  | .nan => .ok b.cap
  | .infinite _ => .ok b.cap
  | .finite negative units =>
    if (negative && units != 0) || units > b.cap.toUnits then .ok b.cap
    else match Duration.ofUnits? units with
      | some d => .ok d
      | none => .error .seconds

def spread (b : Backoff) (retry : Nat) : Except TooLong Spread :=
  (b.base retry).map fun d => b.jitter.spread d (b.first.shorter b.cap) b.cap

/-- The delay before retry number `retry` under the random number `draw`. -/
def delay (b : Backoff) (retry draw : Nat) : Except TooLong Duration :=
  (b.spread retry).map (·.pick draw)

def debugText (b : Backoff) : String :=
  "BackoffPolicy \x7b first: " ++ b.first.text ++ ", max: " ++ b.cap.text ++
    ", factor: " ++ String.ofList b.factor.chars ++ ", jitter: " ++ b.jitter.name ++ " \x7d"

end Backoff

end Redial.Delay
