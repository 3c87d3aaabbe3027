/-!
# Rotas

Who has the next shift on a thread. A task that has something to do is called: by a task that has
its shift, into the inner line, or by somebody else, into the outer one. Shifts are grouped into
rounds; a task that uses up its shift lines up again when the round is over. A task waits in one
place only, so calling it again changes nothing.
-/

namespace Redial.Fanout

structure Rota (α : Type) where
  inner : List α := []
  outer : List α := []
  /-- Those that used up their shift in this round, the last one first. -/
  spent : List α := []
  looks : Nat := 0

namespace Rota

variable {α : Type}

def waiting (r : Rota α) : List α := r.inner ++ r.outer ++ r.spent

def isEmpty (r : Rota α) : Bool := r.waiting.isEmpty

/-- Calls a task into the inner line, unless it waits already. -/
def callInside [DecidableEq α] (r : Rota α) (a : α) : Rota α :=
  if a ∈ r.waiting then r else { r with inner := r.inner ++ [a] }

/-- Calls a task into the outer line, unless it waits already. -/
def callOutside [DecidableEq α] (r : Rota α) (a : α) : Rota α :=
  if a ∈ r.waiting then r else { r with outer := r.outer ++ [a] }

/-- How many looks there are between two at which the outer line goes first. -/
def outerEvery : Nat := 31

/-- The task that has the next shift. The inner line goes first, but now and then the outer one
does, lest it wait for ever. -/
def next (r : Rota α) : Option α × Rota α :=
  let looks := r.looks + 1
  match r.inner, r.outer with
  | [], [] => (none, { r with looks })
  | a :: inner, [] => (some a, { r with inner, looks })
  | [], b :: outer => (some b, { r with outer, looks })
  | a :: inner, b :: outer =>
    if looks % outerEvery = 0 then (some b, { r with outer, looks })
    else (some a, { r with inner, looks })

def setAside (r : Rota α) (a : α) : Rota α := { r with spent := a :: r.spent }

/-- The round is over: the tasks put aside line up again. -/
def endRound (r : Rota α) : Rota α := { r with inner := r.inner ++ r.spent, spent := [] }

theorem mem_waiting_callInside [DecidableEq α] {r : Rota α} {a b : α} :
    b ∈ (r.callInside a).waiting ↔ b = a ∨ b ∈ r.waiting := by
  unfold callInside
  split <;> grind [waiting]

theorem mem_waiting_callOutside [DecidableEq α] {r : Rota α} {a b : α} :
    b ∈ (r.callOutside a).waiting ↔ b = a ∨ b ∈ r.waiting := by
  unfold callOutside
  split <;> grind [waiting]

theorem mem_waiting_endRound {r : Rota α} {a : α} : a ∈ r.endRound.waiting ↔ a ∈ r.waiting := by
  grind [endRound, waiting]

end Rota

end Redial.Fanout
