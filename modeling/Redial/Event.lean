import Redial.Duration

/-!
# Events

What a run tells about itself. A notice is the content of an event; publishing a notice gives it
the next number of one sequence that all calls share.
-/

namespace Redial

/-- The steps of a run that are told. -/
inductive EventKind where
  | attemptStarting
  | attemptFailed
  | resultUnsuccessful
  | retryScheduled
  | callSucceeded
  | callFailed
  | deliverySuppressed
  | deliveryOverflow
  | handleDisposed
  deriving DecidableEq

namespace EventKind

def label : EventKind → String
  | attemptStarting => "attempt_starting"
  | attemptFailed => "attempt_failed"
  | resultUnsuccessful => "result_unsuccessful"
  | retryScheduled => "retry_scheduled"
  | callSucceeded => "call_succeeded"
  | callFailed => "call_failed"
  | deliverySuppressed => "delivery_suppressed"
  | deliveryOverflow => "delivery_overflow"
  | handleDisposed => "handle_disposed"

/-- The run is over with an event of this kind. -/
def isTerminal : EventKind → Bool
  | callSucceeded | callFailed | deliverySuppressed => true
  | _ => false

end EventKind

structure Notice where
  kind : EventKind
  call : Option String := none
  attempt : Option Nat := none
  delay : Option Duration := none
  remaining : Option Nat := none
  error : Option String := none
  deriving DecidableEq

structure Event extends Notice where
  seq : Nat
  deriving DecidableEq

end Redial
