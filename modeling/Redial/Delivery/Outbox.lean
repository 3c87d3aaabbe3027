import Redial.Delivery.Overflow
import Redial.Text.Decimal

/-!
# Outboxes

The bounded queue between a call and its callbacks. Values leave in the order in which they were
accepted; the overflow rule decides about a value that finds the queue full. A closed outbox
accepts nothing, and what it holds can still be taken.
-/

namespace Redial.Delivery

inductive Refusal where
  | full (capacity : Nat)
  | closed
  deriving DecidableEq

namespace Refusal

def label : Refusal → String
  | full _ => "delivery_overflow"
  | closed => "delivery_closed"

def message : Refusal → String
  | full capacity =>
    "delivery queue overflow (capacity " ++ String.ofList (Text.decimal capacity) ++ ")"
  | closed => "delivery queue closed"

end Refusal

/-- A bounded queue with room for at least one value. -/
structure Outbox (α : Type) where
  capacity : Nat
  capacity_pos : 0 < capacity
  rule : Overflow
  queue : List α
  isClosed : Bool

inductive Admission (α : Type) where
  | accepted (after : Outbox α)
  | refused (reason : Refusal)
  /-- The value has to wait for room. -/
  | waits

namespace Outbox

variable {α : Type}

/-- An empty, open outbox; a capacity of zero is taken for one. -/
def create (capacity : Nat) (rule : Overflow) : Outbox α :=
  ⟨max capacity 1, by omega, rule, [], false⟩

def size (box : Outbox α) : Nat := box.queue.length

def isFull (box : Outbox α) : Bool := box.capacity ≤ box.size

def append (box : Outbox α) (value : α) : Outbox α :=
  { box with queue := box.queue ++ [value] }

/-- `value` in the place of the last element of a list that has one. -/
def replaceLast (value : α) : List α → List α
  | [] => []
  | [_] => [value]
  | a :: b :: rest => a :: replaceLast value (b :: rest)

theorem replaceLast_append_singleton (value last : α) (front : List α) :
    replaceLast value (front ++ [last]) = front ++ [value] := by
  induction front with
  | nil => rfl
  | cons a front ih =>
    cases front with
    | nil => rfl
    | cons b front => exact congrArg (a :: ·) ih

def push (box : Outbox α) (value : α) : Admission α :=
  if box.isClosed then .refused .closed
  else if !box.isFull then .accepted (box.append value)
  else match box.rule with
    | .buffer => .accepted (box.append value)
    | .dropOldest => .accepted { box with queue := box.queue.tail ++ [value] }
    | .latest => .accepted { box with queue := replaceLast value box.queue }
    | .refuse => .refused (.full box.capacity)
    | .block => .waits

def pop (box : Outbox α) : Option (α × Outbox α) :=
  match box.queue with
  | [] => none
  | value :: rest => some (value, { box with queue := rest })

/-- From now on nothing is accepted. -/
def close (box : Outbox α) : Outbox α := { box with isClosed := true }

def drain (box : Outbox α) : List α × Outbox α := (box.queue, { box with queue := [] })

theorem push_of_closed {box : Outbox α} (h : box.isClosed = true) (value : α) :
    box.push value = .refused .closed := by
  rw [push, if_pos h]

theorem isClosed_of_push {box after : Outbox α} {value : α} (h : box.push value = .accepted after) :
    after.isClosed = box.isClosed := by
  revert h
  fun_cases push box value <;> intro h <;> cases h <;> rfl

theorem isClosed_of_pop {box after : Outbox α} {value : α} (h : box.pop = some (value, after)) :
    after.isClosed = box.isClosed := by
  revert h
  fun_cases pop box <;> intro h <;> cases h
  rfl

end Outbox

end Redial.Delivery
