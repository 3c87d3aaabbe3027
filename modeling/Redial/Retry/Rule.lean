import Redial.Call.Outcome
import Redial.Call.Script

/-!
# Retry rules

Which outcomes of an attempt ask for another attempt. A fault does unless a predicate rejects it.
An unsuccessful result does if that is enabled; the predicate has no say in it.
-/

namespace Redial.Retry

/-- A test of faults. It is user code, and it may answer differently from one invocation to the
next; the first argument counts its invocations, from one on. -/
abbrev Predicate := Nat → Fault → Script Bool

structure Rule where
  predicate : Option Predicate := none
  retryUnsuccessful : Bool := false

inductive Signal where
  | fault (fault : Fault)
  | unsuccessful
  deriving DecidableEq

/-- The answer of a rule to a signal: known, or up to the predicate. -/
inductive Answer where
  | known (retry : Bool)
  | ask (predicate : Predicate) (fault : Fault)

namespace Rule

def answer (rule : Rule) (signal : Signal) : Answer :=
  match rule.predicate, signal with
  | none, _ => .known true
  | some predicate, .fault fault => .ask predicate fault
  | some _, .unsuccessful => .known rule.retryUnsuccessful

def debugText (rule : Rule) : String :=
  let predicate := if rule.predicate.isSome then "Some(\"<fn>\")" else "None"
  "RetryPolicy \x7b predicate: " ++ predicate ++ ", retry_unsuccessful: " ++
    (if rule.retryUnsuccessful then "true" else "false") ++ " \x7d"

end Rule

end Redial.Retry
