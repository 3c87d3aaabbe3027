import Redial.Duration

/-!
# Jitter

Randomness in a delay, so that many callers do not come back at the same moment. A jitter turns a
delay into a `Spread`: either one fixed duration or a range of whole milliseconds of which each is
equally likely. Drawing from a spread takes the random number as an argument.
-/

namespace Redial.Delay

/-- The durations among which a random draw chooses. -/
inductive Spread where
  | exactly (d : Duration)
  /-- Whole milliseconds from `low` to `high`, both included. -/
  | uniform (low high : Nat)
  deriving DecidableEq

namespace Spread

def pick : Spread → Nat → Duration
  | exactly d, _ => d
  | uniform low high, draw => Duration.ofMillis (low + draw % (high - low + 1))

def least : Spread → Duration
  | exactly d => d
  | uniform low _ => Duration.ofMillis low

def greatest : Spread → Duration
  | exactly d => d
  | uniform low high => Duration.ofMillis (low + (high - low))

def toList : Spread → List Duration
  | exactly d => [d]
  | uniform low high => (List.range (high - low + 1)).map fun i => Duration.ofMillis (low + i)

/-- No duration of the spread has a part below a millisecond. -/
def isWholeMillis : Spread → Bool
  | exactly d => d.nanos % 1_000_000 = 0
  | uniform _ _ => true

def varies (s : Spread) : Bool := s.least ≠ s.greatest

end Spread

inductive Jitter where
  | none
  /-- Anything from nothing up to the delay. -/
  | full
  /-- Half of the delay and a random part of the other half. -/
  | equal
  /-- Anything from the floor up to three times the delay, at most the cap. -/
  | decorrelated
  deriving DecidableEq

instance : Inhabited Jitter := ⟨.none⟩

namespace Jitter

/-- Three times a delay in whole milliseconds, as far as they can be counted. -/
def tripled (delay : Duration) : Nat := min (3 * delay.millis) Duration.maxMillis

/-- The spread of a jittered delay. Only `decorrelated` looks at `floor` and `cap`; where it finds
no room above the floor, the floor itself is the delay. -/
def spread (jitter : Jitter) (delay floor cap : Duration) : Spread :=
  let ms := delay.millis
  match jitter with
  | .none => .exactly delay
  | .full => if ms = 0 then .exactly .zero else .uniform 0 ms
  | .equal =>
    let half := ms / 2
    if half = 0 then .exactly .zero else .uniform half (half + half)
  | .decorrelated =>
    let low := floor.millis
    let high := max (min (tripled delay) cap.millis) low
    if high ≤ low then .exactly floor else .uniform low high

def name : Jitter → String
  | .none => "None"
  | .full => "Full"
  | .equal => "Equal"
  | .decorrelated => "Decorrelated"

end Jitter

end Redial.Delay
