import Redial.Capacity
import Redial.Fanout.Hub
import Redial.Fanout.Rota

/-!
# Hubs on one thread

When everything happens on one thread, it is settled who works when. The workers and the listener,
who passes on what the feed has kept, get shifts from a rota. A shift ends when there is nothing
more to do, or after so many events; between two rounds of shifts the owner of the thread looks
whether what it waits for has come. Each move is a step of the hub, so that a thread shows one of
the schedules a hub can follow.
-/

namespace Redial.Fanout

inductive Task where
  | listener
  | worker (i : Nat)
  deriving DecidableEq

structure Thread where
  hub : Hub
  rota : Rota Task := {}

namespace Thread

def shiftSize : Nat := 128

/-- The shifts of a round. -/
def roundSize : Nat := 61

/-- The workers that have something to do: those for whom something waits, and after the last event
all that have not left. -/
def wanted (h : Hub) : List Task :=
  h.workers.zipIdx.filterMap fun (w, i) =>
    if !w.queue.isEmpty || (h.isShut && w.isAlive) then some (.worker i) else none

def callWorkers (t : Thread) (call : Rota Task → Task → Rota Task) : Thread :=
  { t with rota := (wanted t.hub).foldl call t.rota }

def callListener (t : Thread) (call : Rota Task → Task → Rota Task) : Thread :=
  if t.hub.feed.isSome then { t with rota := call t.rota .listener } else t

/-- A thread for subscribers; every worker is called once. -/
def ofSubscribers (subscribers : List Subscriber) : Except Oversize Thread := do
  subscribers.forM fun s => Capacity.checkQueue s.capacity
  return {
    hub := .ofSubscribers subscribers
    rota := { outer := (List.range subscribers.length).map .worker } }

/-- Worker `i` has a shift of at most so many events. -/
def workShift (i : Nat) : Nat → Thread → Thread
  | 0, t => { t with rota := t.rota.setAside (.worker i) }
  | n + 1, t =>
    match (t.hub.step (.take i)).bind (·.step (.finish i)) with
    | some hub => workShift i n { t with hub }
    | none => { t with hub := (t.hub.step (.retire i)).getD t.hub }

/-- The listener has a shift of at most so many looks at the feed. -/
def listenShift : Nat → Thread → Thread
  | 0, t => { t with rota := t.rota.setAside .listener }
  | n + 1, t =>
    match t.hub.step .relay with
    | none => t
    | some hub => if hub.feed.isSome then listenShift n { t with hub } else { t with hub }

/-- A task has a shift. The listener then calls the workers for which something waits. -/
def shift (t : Thread) : Task → Thread
  | .listener => (t.listenShift shiftSize).callWorkers Rota.callInside
  | .worker i => t.workShift i shiftSize

def shifts : Nat → Thread → Thread
  | 0, t => t
  | n + 1, t =>
    match t.rota.next with
    | (none, rota) => { t with rota }
    | (some task, rota) => shifts n ({ t with rota }.shift task)

def round (t : Thread) : Thread :=
  let t := t.shifts roundSize
  { t with rota := t.rota.endRound }

/-- Rounds, at most so many, until the owner sees what it waits for or no task waits. -/
def roundsUntil (isDone : Hub → Bool) : Nat → Thread → Thread
  | 0, t => t
  | n + 1, t => if isDone t.hub || t.rota.isEmpty then t else roundsUntil isDone n t.round

/-- As many rounds as can be needed. In a shift an event is worked off or passed on to all workers,
a gap or the end of the feed is found, or a worker leaves; a shift without any of that is the first
one or follows one that was used up. -/
def patience (t : Thread) : Nat :=
  let workers := t.hub.workers.length + 1
  let queued := t.hub.workers.foldl (fun n w => n + w.queue.length) 0
  let kept := (t.hub.feed.map (·.kept.length)).getD 0
  t.rota.waiting.length + 2 * (queued + (kept + 3) * workers) + 1

def await (t : Thread) (isDone : Hub → Bool) : Thread := t.roundsUntil isDone t.patience

theorem leads_workShift (i n : Nat) (t : Thread) : t.hub.Leads (workShift i n t).hub := by
  induction n generalizing t with
  | zero => exact .refl _
  | succ n ih =>
    rw [workShift]
    split
    · next hub eq =>
      obtain ⟨mid, took, finished⟩ := Option.bind_eq_some_iff.1 eq
      have worked := (Hub.leads_of_step took).trans (Hub.leads_of_step finished)
      exact worked.trans (ih { t with hub })
    · exact t.hub.leads_step _

theorem leads_listenShift (n : Nat) (t : Thread) : t.hub.Leads (listenShift n t).hub := by
  induction n generalizing t with
  | zero => exact .refl _
  | succ n ih =>
    rw [listenShift]
    split
    · exact .refl _
    · next hub eq =>
      split
      · exact (Hub.leads_of_step eq).trans (ih { t with hub })
      · exact Hub.leads_of_step eq

theorem leads_shifts (n : Nat) (t : Thread) : t.hub.Leads (shifts n t).hub := by
  induction n generalizing t with
  | zero => exact .refl _
  | succ n ih =>
    rw [shifts]
    split
    · exact .refl _
    · next task rota _ =>
      have shifted : t.hub.Leads ({ t with rota }.shift task).hub := by
        cases task with
        | listener => exact leads_listenShift _ { t with rota }
        | worker i => exact leads_workShift i _ { t with rota }
      exact shifted.trans (ih _)

/-- However long the owner waits, the hub follows a schedule. -/
theorem leads_await (t : Thread) (isDone : Hub → Bool) : t.hub.Leads (t.await isDone).hub := by
  unfold await
  generalize t.patience = n
  induction n generalizing t with
  | zero => exact .refl _
  | succ n ih =>
    rw [roundsUntil]
    split
    · exact .refl _
    · exact (t.leads_shifts _).trans (ih t.round)

/-- Goes on until no task waits. -/
def settle (t : Thread) : Thread := t.await fun _ => false

def act (t : Thread) (turn : Hub.Turn) : Thread := { t with hub := (t.hub.step turn).getD t.hub }

def give (t : Thread) (turn : Event → Hub.Turn) (notice : Notice) : Thread :=
  let (e, hub) := t.hub.number notice
  { t with hub }.act (turn e)

def emitAll (t : Thread) (notices : List Notice) : Thread :=
  (notices.foldl (·.give .emit) t).callWorkers Rota.callOutside

def listen (t : Thread) (capacity : Nat) : Except Oversize Thread := do
  Capacity.checkFeed capacity
  return { t with hub := t.hub.listen capacity }.callListener Rota.callOutside

def publishAll (t : Thread) (notices : List Notice) : Thread :=
  match notices with
  | [] => t
  | _ => (notices.foldl (·.give .send) t).callListener Rota.callOutside

/-- The only sender leaves; the owner waits until the rest is passed on and the hub given back. -/
def closeFeed (t : Thread) : Thread :=
  ((t.act (.leave 0)).callListener Rota.callOutside).await (·.feed.isNone)

def kill (t : Thread) : Thread := ⟨t.hub.kill, {}⟩

/-- The owner has no more events and waits until all workers have left. While the hub listens it is
not the owner's to shut. -/
def shutdown (t : Thread) : Thread :=
  if t.hub.feed.isSome then t
  else ((t.act .shut).callWorkers Rota.callInside).await (·.isOver)

end Thread

end Redial.Fanout
