import Redial.Call.Course
import Redial.Feed
import Redial.Handle

/-!
# Exchanges

Calls and all that they share: the feeds, the one sequence of event numbers, the clocks, and a
journal of everything that happens, newest first. The operations here are the single steps; how a
run strings them together is in `Redial.Exchange.Run`.
-/

namespace Redial

inductive Presence where
  | here
  /-- It is at work in a blocking run. -/
  | busy
  /-- It was given to an asynchronous run or dropped. -/
  | gone
  deriving DecidableEq

/-- The name that events bear and the feed that they go to. -/
structure Badge where
  name : String
  feed : Option FeedId
  deriving DecidableEq

/-- A call: its plan, and what running it changes. -/
structure Call where
  plan : Plan
  feed : Option FeedId
  handle : Handle := .fresh
  /-- What the handle bears. Whoever holds the handle tells the disposal under it, and need not know
  the call. -/
  badge : Badge
  badge_eq : badge = ⟨plan.name, feed⟩
  outbox : Delivery.Outbox Verdict
  /-- The callback for results, until it is used. -/
  onSuccess : Option (Result → Script Unit)
  /-- The callback for faults, until it is used. -/
  onFailure : Option (Fault → Script Unit)
  bodyCalls : Nat := 0
  predicateCalls : Nat := 0
  presence : Presence := .here
  /-- User code can reach it by its number. -/
  isListed : Bool := true

def Plan.toCall (plan : Plan) (feed : Option FeedId) (listed : Bool) : Call where
  plan := plan
  feed := feed
  badge := ⟨plan.name, feed⟩
  badge_eq := rfl
  outbox := .create plan.delivery.outboxRoom plan.delivery.overflow
  onSuccess := plan.onSuccess
  onFailure := plan.onFailure
  isListed := listed

inductive Entry where
  | invoked (call : CallId) (n : Nat)
  | consulted (call : CallId) (fault : Fault) (answer : Bool)
  | delivered (call : CallId) (verdict : Verdict)
  /-- User code of a call did something to a call. -/
  | acted (role : Role) (call : CallId) (deed : Deed) (target : CallId) (answer : Option Bool)
  /-- User code of a call asked for a run. -/
  | nested (role : Role) (call target : CallId) (reply : RunReply)
  | waited (call : CallId) (delay : Duration)
  /-- A call told of an event: on which feed and under which number, if it has a feed. -/
  | told (call : CallId) (notice : Notice) (feed : Option (FeedId × Nat))

/-- When another thread will dispose a handle. -/
inductive Trigger where
  | timer (millis : Nat)
  | clock (nanos : Nat)
  /-- So long after the `n`-th retry announced on a feed. -/
  | retries (feed : FeedId) (n : Nat) (after : Nat)
  deriving DecidableEq

/-- Another thread that is going to dispose a handle, and the answer it got. -/
structure Alarm where
  target : CallId
  trigger : Trigger
  answer : Option Bool := none
  deriving DecidableEq

/-- The calls and what they share. -/
structure Exchange where
  /-- The calls by number; nothing for one that could not be built. -/
  calls : List (Option Call) := []
  feeds : List (Feed Event) := []
  nextSeq : Nat := 0
  journal : List Entry := []
  /-- The clock of blocking runs, in nanoseconds. It has been going for an hour. -/
  clock : Nat := 3600 * 1_000_000_000
  /-- The timer of the asynchronous run at work, in milliseconds. -/
  timer : Nat := 0
  /-- Bodies of asynchronous runs find someone to invoke them. -/
  staffed : Bool := true
  alarm : Option Alarm := none

namespace Exchange

def call? (x : Exchange) (c : CallId) : Option Call := x.calls[c]?.join

def modify (x : Exchange) (c : CallId) (f : Call → Call) : Exchange :=
  { x with calls := x.calls.modify c (·.map f) }

def note (x : Exchange) (entry : Entry) : Exchange := { x with journal := entry :: x.journal }

/-- A retry was announced on `feed`: an alarm that counts them comes nearer. -/
def countRetry (x : Exchange) (feed : FeedId) : Exchange :=
  match x.alarm with
  | some ⟨target, .retries watched n after, answer⟩ =>
    if watched = feed then
      let trigger := if n ≤ 1 then .clock (x.clock + after) else .retries watched (n - 1) after
      { x with alarm := some ⟨target, trigger, answer⟩ }
    else x
  | _ => x

/-- Publishes a notice of call `c` under a badge: on its feed, if there is one, and only then the
notice gets a number. -/
def publish (x : Exchange) (c : CallId) (badge : Badge) (notice : Notice) : Exchange :=
  let notice := { notice with call := some badge.name }
  match badge.feed with
  | none => x.note (.told c notice none)
  | some feed =>
    let x := x.note (.told c notice (some (feed, x.nextSeq)))
    let x := { x with
      feeds := x.feeds.modify feed (·.send { notice with seq := x.nextSeq })
      nextSeq := x.nextSeq + 1 }
    if notice.kind = .retryScheduled then x.countRetry feed else x

/-- A run tells of its call, under the name of the plan and on the feed of the call. -/
def tell (x : Exchange) (c : CallId) (notice : Notice) : Exchange :=
  match x.call? c with
  | none => x
  | some call => x.publish c ⟨call.plan.name, call.feed⟩ notice

/-- Disposes the handle of a call; the first time that is an event, under the badge of the handle. -/
def dispose (x : Exchange) (c : CallId) : Option Bool × Exchange :=
  match x.call? c with
  | none => (none, x)
  | some call =>
    let (first, handle) := call.handle.dispose
    let x := x.modify c ({ · with handle })
    (some first, if first then x.publish c call.badge { kind := .handleDisposed } else x)

theorem tell_of_unknown {x : Exchange} {c : CallId} (hcall : x.call? c = none) (notice : Notice) :
    x.tell c notice = x := by
  unfold tell
  rw [hcall]

theorem tell_of_known {x : Exchange} {c : CallId} {call : Call} (hcall : x.call? c = some call)
    (notice : Notice) : x.tell c notice = x.publish c call.badge notice := by
  unfold tell
  rw [hcall, call.badge_eq]

/-- The handle of a call bears what the call itself tells under, so a disposal is told like
everything else. -/
theorem dispose_eq_tell (x : Exchange) (c : CallId) : x.dispose c =
    match x.call? c with
    | none => (none, x)
    | some call =>
      let (first, handle) := call.handle.dispose
      let x := x.modify c ({ · with handle })
      (some first, if first then x.tell c { kind := .handleDisposed } else x) := by
  unfold dispose
  cases hcall : x.call? c with
  | none => rfl
  | some call =>
    have hknown : (x.modify c ({ · with handle := call.handle.dispose.2 })).call? c =
        some { call with handle := call.handle.dispose.2 } := by
      have hentry : x.calls[c]? = some (some call) := Option.join_eq_some_iff.mp hcall
      simp only [call?, modify, List.getElem?_modify, hentry]
      rfl
    dsimp only
    rw [tell_of_known hknown]

/-- The call with a number, if it is neither at work nor gone. -/
def present? (x : Exchange) (c : CallId) : Option Call :=
  match x.call? c with
  | some call => if call.presence = .here then some call else none
  | none => none

def close (x : Exchange) (c : CallId) : Option Bool × Exchange :=
  match x.present? c with
  | none => (none, x)
  | some _ => x.dispose c

/-- What happens to a call when nobody holds it any more. -/
def release (x : Exchange) (c : CallId) : Exchange :=
  (x.dispose c).2.modify c fun call => { call with outbox := call.outbox.close }

def drop (x : Exchange) (c : CallId) : Option Bool × Exchange :=
  match x.present? c with
  | none => (none, x)
  | some _ => (some true, (x.modify c ({ · with presence := .gone })).release c)

def perform (x : Exchange) (deed : Deed) (c : CallId) : Option Bool × Exchange :=
  match deed with
  | .dispose => x.dispose c
  | .close => x.close c
  | .drop => x.drop c

def reaches (x : Exchange) (c : CallId) : Bool := (x.call? c).any (·.isListed)

def performFor (x : Exchange) (deed : Deed) (c : CallId) : Option Bool × Exchange :=
  if x.reaches c then x.perform deed c else (none, x)

def ring (x : Exchange) (alarm : Alarm) : Exchange :=
  let (answer, x) := x.dispose alarm.target
  { x with alarm := some { alarm with answer := some (answer.getD false) } }

/-- Time passes on the clock; an alarm that is due goes off. -/
def elapse (x : Exchange) (nanos : Nat) : Exchange :=
  let x := { x with clock := x.clock + nanos }
  match x.alarm with
  | some ⟨target, .clock due, none⟩ =>
    if due ≤ x.clock then x.ring ⟨target, .clock due, none⟩ else x
  | _ => x

/-- The longest wait of a timer in milliseconds: thirty years of 365 days. -/
def longestWait : Nat := 30 * 365 * 86400 * 1000

/-- The milliseconds that a timer waits for a delay: every part of a millisecond counts as a whole
one. -/
def timerMillis (delay : Duration) : Nat := min ((delay.nanos + 1_000_000 - 1) / 1_000_000) longestWait

/-- Call `c` waits for a delay or for its own disposal, whichever comes first. -/
def wait (x : Exchange) (c : CallId) (delay : Duration) : Exchange :=
  if (x.call? c).any (·.handle.signalled) then x
  else
    let deadline := x.timer + timerMillis delay
    match x.alarm with
    | some ⟨target, .timer due, none⟩ =>
      if due ≤ deadline then
        let x := { x with timer := max x.timer due }.ring ⟨target, .timer due, none⟩
        if target = c then x else { x with timer := deadline }
      else { x with timer := deadline }
    | _ => { x with timer := deadline }

end Exchange

end Redial
