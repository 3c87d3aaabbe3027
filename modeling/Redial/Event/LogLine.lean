import Redial.Event
import Redial.Text.Quoted

/-!
# Log lines

One line of text per event. Names and errors are quoted, so a line has no line break of its own and
no name can pass for another field.
-/

namespace Redial.Event

/-- The tag that opens the line of a kind of event. -/
def logTag : EventKind → String
  | .attemptStarting => "[attempt]"
  | .attemptFailed => "[attempt-failed]"
  | .resultUnsuccessful => "[unsuccessful]"
  | .retryScheduled => "[retry]"
  | .callSucceeded => "[succeeded]"
  | .callFailed => "[failed]"
  | .deliverySuppressed => "[suppressed]"
  | .deliveryOverflow => "[overflow]"
  | .handleDisposed => "[disposed]"

/-- The fields after the call, each with a default where the event has none. -/
def logFields (n : Notice) : List Char :=
  let attempt := Text.decimal (n.attempt.getD 0)
  let error := Text.quoted (n.error.getD "").toList
  match n.kind with
  | .attemptStarting | .callSucceeded => " attempt=".toList ++ attempt
  | .attemptFailed | .callFailed => " attempt=".toList ++ attempt ++ " err=".toList ++ error
  | .resultUnsuccessful =>
    " attempt=".toList ++ attempt ++ " budget_left=".toList ++ Text.decimal (n.remaining.getD 0)
  | .retryScheduled =>
    " after_attempt=".toList ++ attempt ++ " delay=".toList ++ (n.delay.getD .zero).chars
  | .deliveryOverflow => " err=".toList ++ error
  | .deliverySuppressed | .handleDisposed => []

/-- The log line of an event; a call without a name is `"?"`. -/
def logLine (n : Notice) : List Char :=
  (logTag n.kind).toList ++ " call=".toList ++ Text.quoted (n.call.getD "?").toList ++ logFields n

end Redial.Event
