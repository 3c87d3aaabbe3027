/-!
# Faults

The ways in which an attempt of a call can end without a result, with the texts under which they
are reported. Only a plain failure is worth another attempt by itself.
-/

namespace Redial

/-- Why an attempt has no result. -/
inductive Fault where
  | failure (reason : String)
  | fatal (reason : String)
  | canceled
  deriving DecidableEq

namespace Fault

def text : Fault → String
  | failure reason => "execution failed: " ++ reason
  | fatal reason => "fatal error (no retry): " ++ reason
  | canceled => "call cancelled"

def label : Fault → String
  | failure _ => "call_failed"
  | fatal _ => "call_fatal"
  | canceled => "call_canceled"

def summary : Fault → String
  | failure reason => "error: " ++ reason
  | fatal reason => "fatal: " ++ reason
  | canceled => "call cancelled"

/-- Another attempt can help after a plain failure only. -/
def isRetryable : Fault → Bool
  | failure _ => true
  | _ => false

end Fault

end Redial
