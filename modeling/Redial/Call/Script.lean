/-!
# Scripts

User code as data: what a body, a predicate or a callback does to the calls around it before it
returns a value or panics. Each step hands its answer to the rest of the script.
-/

namespace Redial

abbrev CallId := Nat

inductive Deed where
  /-- Dispose its handle; this works as long as the call was ever built. -/
  | dispose
  /-- Close it; this needs the call itself, neither at work nor given away. -/
  | close
  | drop
  deriving DecidableEq

inductive Halt where
  | panic (text : String)
  /-- It waits for room in an outbox that nobody empties. -/
  | stuck
  deriving DecidableEq

inductive RunReply where
  | ended (how : Except Halt Unit)
  /-- The call is at work in a run around this one. -/
  | busy
  /-- There is no such call any more. -/
  | absent

/-- A piece of user code with a value of type `α`. -/
inductive Script (α : Type) where
  | done (value : α)
  | panic (text : String)
  /-- A deed, answered with whether it had an effect, or with nothing if there is no such call. -/
  | act (deed : Deed) (target : CallId) (next : Option Bool → Script α)
  /-- A blocking run of another call. -/
  | run (target : CallId) (next : RunReply → Script α)

inductive Role where
  | body
  | predicate
  | onSuccess
  | onFailure
  deriving DecidableEq

namespace Script

variable {α : Type}

def acting (deeds : List (Deed × CallId)) (rest : Script α) : Script α :=
  deeds.foldr (fun (deed, target) rest => .act deed target fun _ => rest) rest

end Script

end Redial
