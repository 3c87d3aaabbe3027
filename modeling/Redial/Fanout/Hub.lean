import Redial.Fanout.Worker
import Redial.Feed

/-!
# Hubs

A hub hands events to all its workers. Events come from its owner, or from a feed that it listens
to: then it passes on what the feed has kept and complains about what it has missed.

The steps can come in any order; one order is that of `Redial.Fanout.Thread`, where all of them
happen on one thread.
-/

namespace Redial.Fanout

/-- Workers, what they have printed and the complaints, both in order. -/
structure Hub where
  workers : List Worker
  printed : List String := []
  complaints : List Complaint := []
  /-- The feed that the hub listens to as its first reader. -/
  feed : Option (Feed Event) := none
  /-- No more events come; workers that have nothing to do can leave. -/
  isShut : Bool := false
  nextSeq : Nat := 0

namespace Hub

/-- A hub draws a number for itself before all else, so its events go on with number one. -/
def ofSubscribers (subscribers : List Subscriber) : Hub :=
  { workers := subscribers.map fun subscriber => { subscriber }, nextSeq := 1 }

def size (h : Hub) : Nat := h.workers.length

def emit (h : Hub) (e : Event) : Hub :=
  let offers := h.workers.map fun w => (w, w.offer e)
  { h with
    workers := offers.map fun (w, answer) => answer.toOption.getD w
    complaints := h.complaints ++ offers.filterMap fun (w, answer) =>
      match answer with
      | .ok _ => none
      | .error loss => some (.dropped w.subscriber.name loss) }

def send (h : Hub) (e : Event) : Hub := { h with feed := h.feed.map (·.send e) }

/-- The hub looks once at its feed and passes on what it finds. It stops listening when everything
is read and nobody can send any more; without news it waits. -/
def relay (h : Hub) : Option Hub :=
  match h.feed with
  | none => none
  | some feed =>
    match feed.read 0 with
    | (.item e, feed) => some ({ h with feed := some feed }.emit e)
    | (.lagged missed, feed) =>
      some { h with feed := some feed, complaints := h.complaints ++ [.lagged missed] }
    | (.closed, _) => some { h with feed := none }
    | (.empty, _) => none

/-- One worker has reacted. -/
def record (h : Hub) (name : String) : Reaction → Hub
  | .quiet => h
  | .prints line => { h with printed := h.printed ++ [line] }
  | .panics => { h with complaints := h.complaints ++ [.panicked name] }

def update (h : Hub) (i : Nat) (w : Worker) : Hub := { h with workers := h.workers.set i w }

def shut (h : Hub) : Hub := { h with isShut := true }

/-- One step of a hub or of those around it. -/
inductive Turn where
  | emit (e : Event)
  | send (e : Event)
  /-- Sender `s` of the feed lets one more in. -/
  | join (s : Nat)
  /-- Sender `s` of the feed leaves. -/
  | leave (s : Nat)
  | relay
  | take (i : Nat)
  | finish (i : Nat)
  | shut
  /-- Worker `i` has nothing more to do and leaves. -/
  | retire (i : Nat)

/-- The hub after a turn, if that is possible. While the hub listens, its owner has lent it out. -/
def step (h : Hub) : Turn → Option Hub
  | .emit e => if h.isShut || h.feed.isSome then none else some (h.emit e)
  | .send e => if h.feed.any (·.isOpen) then some (h.send e) else none
  | .join s =>
    if h.feed.any (·.canSend s) then some { h with feed := h.feed.map (·.addSender s) } else none
  | .leave s =>
    if h.feed.any (·.canSend s) then some { h with feed := h.feed.map (·.dropSender s) } else none
  | .relay => h.relay
  | .take i => (h.workers[i]?.bind Worker.take).map (h.update i)
  | .finish i =>
    match h.workers[i]? with
    | none => none
    | some w => w.finish.map fun (reaction, w) => (h.update i w).record w.subscriber.name reaction
  | .shut => if h.feed.isSome then none else some h.shut
  | .retire i =>
    match h.workers[i]? with
    | none => none
    | some w => if h.isShut && w.isIdle then some (h.update i w.kill) else none

/-- Follows a schedule; turns that are not possible are passed over. -/
def follow (h : Hub) (turns : List Turn) : Hub :=
  turns.foldl (fun h turn => (h.step turn).getD h) h

def Leads (h after : Hub) : Prop := ∃ turns, h.follow turns = after

theorem Leads.refl (h : Hub) : h.Leads h := ⟨[], rfl⟩

theorem Leads.trans {h mid after : Hub} (first : h.Leads mid) (second : mid.Leads after) :
    h.Leads after := by
  obtain ⟨turns, rfl⟩ := first
  obtain ⟨rest, rfl⟩ := second
  exact ⟨turns ++ rest, by simp [follow]⟩

theorem leads_step (h : Hub) (turn : Turn) : h.Leads ((h.step turn).getD h) :=
  ⟨[turn], by simp [follow]⟩

theorem leads_of_step {h after : Hub} {turn : Turn} (eq : h.step turn = some after) :
    h.Leads after := by
  simpa [eq] using h.leads_step turn

def isOver (h : Hub) : Bool := h.isShut && h.workers.all fun w => !w.isAlive

/-- A notice becomes an event of the hub's owner. -/
def number (h : Hub) (notice : Notice) : Event × Hub :=
  ({ notice with seq := h.nextSeq }, { h with nextSeq := h.nextSeq + 1 })

def listen (h : Hub) (capacity : Nat) : Hub :=
  { h with feed := some (Feed.create capacity).subscribe }

def kill (h : Hub) : Hub := { h with workers := h.workers.map Worker.kill, feed := none }

/-- The lines printed, the lines of the complaints and per worker the events that are new since
`before`. -/
def since (h before : Hub) : List String × List String × List (List Event) :=
  ((h.printed.drop before.printed.length).flatMap Text.linesOf,
    (h.complaints.drop before.complaints.length).flatMap Complaint.lines,
    (h.workers.zip before.workers).map fun (now, old) => now.handled.drop old.handled.length)

end Hub

end Redial.Fanout
