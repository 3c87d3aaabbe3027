import Redial.Delivery.Outbox

/-!
# Outboxes shared by threads

An outbox as a monitor. Threads push, pop or close; each of these is one step under the lock. A
push that finds no room parks its thread. A pop that took a value owes one notification and a close
owes one to everybody; paying it is a later step, so other threads can come in between. A parked
thread can also wake up without reason. An awakened thread asks again.
-/

namespace Redial.Delivery

inductive Stage where
  /-- It has not asked yet. -/
  | arriving
  /-- It sleeps and nobody has called it. -/
  | parked
  /-- It was called and has not asked again yet. -/
  | notified
  /-- It woke up by itself and has not asked again yet. -/
  | roused
  deriving DecidableEq

inductive Thread (α : Type) where
  | pushing (stage : Stage) (value : α)
  | pushed (answer : Except Refusal Unit)
  | popping
  /-- It took a value and owes one notification. -/
  | popNotifies (value : α)
  | popped (answer : Option α)
  | closing
  /-- It closed the outbox and owes a notification to everybody. -/
  | closeNotifies
  | closed

namespace Thread

variable {α : Type}

/-- Nobody has called this parked thread yet. -/
def isParked : Thread α → Bool
  | pushing .parked _ => true
  | _ => false

def awaken (stage : Stage) : Thread α → Thread α
  | pushing .parked value => pushing stage value
  | thread => thread

end Thread

structure Monitor (α : Type) where
  box : Outbox α
  threads : List (Thread α)

inductive Move where
  /-- Thread `i` makes its next step. If it owes one notification, `target` gets it. -/
  | act (i target : Nat)
  /-- The parked thread `i` wakes up without reason. -/
  | rouse (i : Nat)
  deriving DecidableEq

namespace Monitor

variable {α : Type}

def update (m : Monitor α) (i : Nat) (thread : Thread α) : Monitor α :=
  { m with threads := m.threads.set i thread }

def anyParked (m : Monitor α) : Bool := m.threads.any Thread.isParked

/-- The push of thread `i`, in whatever stage it asks. -/
def ask (m : Monitor α) (i : Nat) (value : α) : Monitor α :=
  match m.box.push value with
  | .accepted box => { m with box }.update i (.pushed (.ok ()))
  | .refused reason => m.update i (.pushed (.error reason))
  | .waits => m.update i (.pushing .parked value)

/-- One notification for `target`; it is lost if nobody sleeps, and else has to go to a sleeper. -/
def notifyOne (m : Monitor α) (target : Nat) : Option (Monitor α) :=
  match m.threads[target]? with
  | some (.pushing .parked value) => some (m.update target (.pushing .notified value))
  | _ => if m.anyParked then none else some m

def notifyAll (m : Monitor α) : Monitor α :=
  { m with threads := m.threads.map (Thread.awaken .notified) }

/-- The state after a move, if the move is possible. -/
def step (m : Monitor α) : Move → Option (Monitor α)
  | .act i target =>
    match m.threads[i]? with
    | some (.pushing .parked _) => none
    | some (.pushing _ value) => some (m.ask i value)
    | some .popping =>
      match m.box.pop with
      | some (value, box) => some ({ m with box }.update i (.popNotifies value))
      | none => some (m.update i (.popped none))
    | some (.popNotifies value) =>
      (m.notifyOne target).map (·.update i (.popped (some value)))
    | some .closing => some ({ m with box := m.box.close }.update i .closeNotifies)
    | some .closeNotifies => some (m.notifyAll.update i .closed)
    | _ => none
  | .rouse i =>
    match m.threads[i]? with
    | some (.pushing .parked value) => some (m.update i (.pushing .roused value))
    | _ => none

/-- Follows a schedule; moves that are not possible are passed over. -/
def follow (m : Monitor α) (moves : List Move) : Monitor α :=
  moves.foldl (fun m move => (m.step move).getD m) m

/-- The answers of the threads that have finished a push, in the order of the threads. -/
def pushAnswers (m : Monitor α) : List (Except Refusal Unit) :=
  m.threads.filterMap fun
    | .pushed answer => some answer
    | _ => none

/-- The values that finished pops have taken, in the order of the threads. -/
def popAnswers (m : Monitor α) : List (Option α) :=
  m.threads.filterMap fun
    | .popped answer => some answer
    | _ => none

/-- One thread pushes `value`, another one pops while it may be waiting, and both finish. -/
def pushAgainstPop (box : Outbox α) (value : α) : Monitor α :=
  follow ⟨box, [.pushing .arriving value, .popping]⟩ [.act 0 0, .act 1 0, .act 1 0, .act 0 0]

/-- Each value is pushed by a thread of its own, one more thread closes the outbox, and all
finish. -/
def pushAgainstClose (box : Outbox α) (values : List α) : Monitor α :=
  let n := values.length
  let everyone := (List.range n).map fun i => Move.act i 0
  follow ⟨box, values.map (.pushing .arriving) ++ [.closing]⟩
    (everyone ++ [.act n 0, .act n 0] ++ everyone)

end Monitor

end Redial.Delivery
