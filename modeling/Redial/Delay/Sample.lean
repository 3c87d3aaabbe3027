import Redial.Delay.Backoff

/-!
# Samples

What a number of random draws is bound to show. A sample has one spread per draw; a statement about
a sample holds whatever the draws turn out to be, and of no draws at all every such statement holds.
-/

namespace Redial.Delay

/-- The spreads of some draws, in order. -/
abbrev Sample := List Spread

namespace Sample

def isWithin (s : Sample) (low high : Duration) : Bool :=
  s.all fun spread => low ≤ spread.least && spread.greatest ≤ high

def isWholeMillis (s : Sample) : Bool := s.all Spread.isWholeMillis

/-- Some draw after the first can differ from it. -/
def varies : Sample → Bool
  | [] => false
  | first :: rest => rest.any fun spread => spread.varies || spread ≠ first

/-- The durations of draws from one spread in ascending order, once there are enough of them. -/
def distinct : Sample → List Duration
  | [] => []
  | spread :: _ => spread.toList

end Sample

def Jitter.sample (jitter : Jitter) (delay floor cap : Duration) (draws : Nat) : Sample :=
  List.replicate draws (jitter.spread delay floor cap)

/-- Draws of the delay before retry number `retry`; without draws no delay is computed. -/
def Backoff.sample (b : Backoff) (retry draws : Nat) : Except TooLong Sample :=
  (List.replicate draws retry).mapM b.spread

end Redial.Delay
