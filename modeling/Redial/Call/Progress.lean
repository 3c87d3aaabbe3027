import Redial.Call.Plan
import Redial.Event
import Redial.Retry.Budget

/-!
# Progress

How far a run has come: the attempts it has begun and the retries left for unsuccessful results.
-/

namespace Redial

/-- The attempts begun so far and the budget that is left. -/
structure Progress where
  attempt : Nat
  budget : Retry.Budget
  deriving DecidableEq

namespace Progress

def start (limit : Retry.Limit) : Progress := ⟨0, ⟨limit.retries⟩⟩

def begin (p : Progress) : Progress := { p with attempt := p.attempt + 1 }

def mayRetry (p : Progress) (limit : Retry.Limit) : Bool := p.attempt < limit.maxAttempts

/-- The number of the retry that would follow, counted from zero. -/
def retryIndex (p : Progress) : Nat := min (p.attempt - 1) (UInt32.size - 1)

/-- An event about the current attempt; before the first one it names none. -/
def notice (p : Progress) (kind : EventKind) : Notice :=
  { kind, attempt := if p.attempt = 0 then none else some p.attempt }

/-- Draws on the budget if `enabled`, and tells whether there was something to draw. -/
def spend (p : Progress) (enabled : Bool) : Bool × Progress :=
  if enabled then
    let (taken, budget) := p.budget.take
    (taken, { p with budget })
  else (false, p)

end Progress

end Redial
