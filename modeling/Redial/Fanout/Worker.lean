import Redial.Event.LogLine
import Redial.Text.Lines

/-!
# Workers

A subscriber reacts to events. Its worker holds a bounded queue in front of it, takes the events
one by one in the order of their arrival, and survives reactions that panic. An event that finds
the queue full is lost for this subscriber alone.
-/

namespace Redial.Fanout

inductive Reaction where
  | quiet
  | prints (line : String)
  | panics
  deriving DecidableEq

/-- One that wants to hear of events. -/
structure Subscriber where
  name : String
  /-- How many events may wait for it; zero counts as one. -/
  capacity : Nat := 256
  /-- The reaction to an event. The first argument counts the events, from one on. -/
  react : Nat → Event → Reaction

namespace Subscriber

def room (s : Subscriber) : Nat := max s.capacity 1

def logWriter : Subscriber where
  name := "LogWriter"
  react _ e := .prints (String.ofList (Event.logLine e.toNotice))

end Subscriber

inductive Loss where
  | queueFull
  | workerClosed
  deriving DecidableEq

/-- Something that goes wrong beside the events. -/
inductive Complaint where
  | dropped (subscriber : String) (loss : Loss)
  | panicked (subscriber : String)
  | lagged (missed : Nat)
  deriving DecidableEq

/-- The text that tells of a complaint. It is one line unless the name of the subscriber has
several. -/
def Complaint.message : Complaint → String
  | .dropped name .queueFull =>
    "[callvisor] subscriber '" ++ name ++ "' dropped event: queue full"
  | .dropped name .workerClosed =>
    "[callvisor] subscriber '" ++ name ++ "' dropped event: worker closed"
  | .panicked name => "[callvisor] subscriber '" ++ name ++ "' panicked: Any \x7b .. \x7d"
  | .lagged missed =>
    "[callvisor] listener lagged, skipped " ++ String.ofList (Text.decimal missed) ++ " events"

def Complaint.lines (c : Complaint) : List String := Text.linesOf c.message

structure Worker where
  subscriber : Subscriber
  queue : List Event := []
  current : Option Event := none
  /-- The events that are done, the oldest first. -/
  handled : List Event := []
  isAlive : Bool := true

namespace Worker

/-- Puts an event into the queue, if there is room and somebody to take it out again. -/
def offer (w : Worker) (e : Event) : Except Loss Worker :=
  if !w.isAlive then .error .workerClosed
  else if w.queue.length < w.subscriber.room then .ok { w with queue := w.queue ++ [e] }
  else .error .queueFull

def take (w : Worker) : Option Worker :=
  match w.isAlive, w.current, w.queue with
  | true, none, e :: rest => some { w with current := some e, queue := rest }
  | _, _, _ => none

/-- Finishes the event at work, in whatever way the subscriber reacts. -/
def finish (w : Worker) : Option (Reaction × Worker) :=
  w.current.map fun e =>
    (w.subscriber.react (w.handled.length + 1) e,
      { w with current := none, handled := w.handled ++ [e] })

def isIdle (w : Worker) : Bool := w.queue.isEmpty && w.current.isNone

def kill (w : Worker) : Worker := { w with isAlive := false, queue := [], current := none }

/-- All that has reached the subscriber or still will: what is done, at work and waiting. -/
def accepted (w : Worker) : List Event := w.handled ++ w.current.toList ++ w.queue

/-- An event that gets a place is the last of those accepted. -/
theorem accepted_offer {w after : Worker} {e : Event} (h : w.offer e = .ok after) :
    after.accepted = w.accepted ++ [e] := by
  unfold offer at h
  split at h
  · cases h
  · split at h
    · cases h
      simp [accepted]
    · cases h

theorem accepted_take {w after : Worker} (h : w.take = some after) :
    after.accepted = w.accepted := by
  unfold take at h
  split at h
  · cases h
    simp_all [accepted]
  · cases h

/-- However the subscriber reacts, nothing is added or lost. -/
theorem accepted_finish {w after : Worker} {reaction : Reaction}
    (h : w.finish = some (reaction, after)) : after.accepted = w.accepted := by
  obtain ⟨e, he, hw⟩ := Option.map_eq_some_iff.1 h
  cases hw
  simp [accepted, he]

end Worker

end Redial.Fanout
