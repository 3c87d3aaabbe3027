import Redial.Exchange.Build

/-!
# Sessions

An exchange under the hand of one thread: commands are carried out one after the other, and after
each of them one sees the new entries of the journal, what the readers of the feeds have received,
and the state of every handle.
-/

namespace Redial

/-- What a reader was subscribed for. -/
inductive TapLabel where
  /-- A shared feed, from the beginning. -/
  | feed (i : Nat)
  /-- The own feed of a call, from the beginning. -/
  | call (c : CallId)
  /-- The feed of a call, on request. -/
  | late (c : CallId)
  deriving DecidableEq

structure Tap where
  label : TapLabel
  feed : FeedId
  reader : Nat

structure Session where
  exchange : Exchange := {}
  taps : List Tap := []

/-- What one can ask of a session. -/
inductive Command where
  | run (c : CallId)
  /-- A blocking run while another thread disposes the handle a little after the `n`-th retry is
  announced. -/
  | runWatched (c : CallId) (n : Nat)
  | runAsync (c : CallId)
  /-- An asynchronous run beside which the handle is disposed after so many milliseconds. -/
  | spawn (c : CallId) (disposeAfter : Option Nat)
  /-- An asynchronous run for which nobody invokes bodies any more. -/
  | runUnstaffed (c : CallId)
  | close (c : CallId)
  | dispose (c : CallId)
  | isSignalled (c : CallId)
  | info (c : CallId)
  | debug (c : CallId)
  | subscribe (c : CallId)
  | unsubscribe
  | drop (c : CallId)

structure CallInfo where
  name : String
  maxRetries : Nat
  maxAttempts : Nat
  overflow : Delivery.Overflow
  readers : Option Nat

inductive Answer where
  | noCall
  /-- A blocking run and the nanoseconds that it took. -/
  | ran (reply : RunReply) (nanos : Nat)
  /-- The same, with what the other thread was told. -/
  | watched (reply : RunReply) (disposed : Option Bool) (nanos : Nat)
  /-- An asynchronous run and the milliseconds that passed on its timer. -/
  | driven (reply : RunReply) (millis : Nat)
  /-- The same, with what the disposal beside it was told. -/
  | spawned (reply : RunReply) (disposed : Option Bool) (millis : Nat)
  | unstaffed (reply : RunReply)
  | flag (value : Bool)
  | info (info : CallInfo)
  | text (text : String)
  | nothing
  | dropped

namespace Call

def debugText (call : Call) : String :=
  "Caller \x7b call: " ++ Text.quote call.plan.name ++
    ", limit: RetryLimit(" ++ String.ofList (Text.decimal call.plan.limit.retries) ++
    "), policy: " ++ call.plan.rule.debugText ++
    ", backoff: " ++ call.plan.backoff.debugText ++
    ", handle: " ++ call.handle.debugText call.badge.name ++ ", .. \x7d"

def info (call : Call) (feeds : List (Feed Event)) : CallInfo where
  name := call.plan.name
  maxRetries := call.plan.limit.retries
  maxAttempts := call.plan.limit.maxAttempts
  overflow := call.outbox.rule
  readers := call.feed.map fun feed => (feeds[feed]?.map Feed.readerCount).getD 0

end Call

namespace Session

def addTap (s : Session) (label : TapLabel) (feed : FeedId) : Session :=
  let reader := (s.exchange.feeds[feed]?.map (·.readers.length)).getD 0
  { exchange := { s.exchange with feeds := s.exchange.feeds.modify feed Feed.subscribe }
    taps := s.taps ++ [⟨label, feed, reader⟩] }

/-- The queues that shared feeds and drafts need can be set up, the feeds first. A draft that is no
plan needs none. -/
def checkCapacities (capacities : List Nat) (drafts : List Draft) (usual : Delivery.Settings) :
    Except Oversize Unit := do
  capacities.forM Capacity.checkFeed
  drafts.forM fun draft =>
    match draft.plan usual fun _ => 0 with
    | .error _ => pure ()
    | .ok plan => plan.checkCapacities

/-- Opens the shared feeds and builds the calls; unless it is to be quiet, every feed gets a
reader. A session draws a number for itself before all else, so its calls go on with number one. -/
def openWith (capacities : List Nat) (drafts : List Draft) (usual : Delivery.Settings)
    (draws : Nat → Nat → Nat) (quiet : Bool) : List (Except DraftError Unit) × Session :=
  let x := Exchange.withFeeds capacities 1
  let (built, x) := x.addDrafts usual draws drafts
  let s : Session := { exchange := x }
  if quiet then (built, s)
  else
    let s := (List.range capacities.length).foldl (fun s i => s.addTap (.feed i) i) s
    let s := x.calls.zipIdx.foldl
      (fun s (call, c) =>
        match call with
        | some call =>
          match call.plan.feed, call.feed with
          | .own, some feed => s.addTap (.call c) feed
          | _, _ => s
        | none => s) s
    (built, s)

/-- The same, once it is clear that all queues can be set up. -/
def openChecked (capacities : List Nat) (drafts : List Draft) (usual : Delivery.Settings)
    (draws : Nat → Nat → Nat) (quiet : Bool) :
    Except Oversize (List (Except DraftError Unit) × Session) := do
  checkCapacities capacities drafts usual
  return openWith capacities drafts usual draws quiet

/-- The exchange carries out one operation. -/
def update {α : Type} (s : Session) (f : Exchange → α × Exchange) : α × Session :=
  let (a, x) := f s.exchange
  (a, { s with exchange := x })

/-- How long after the announcement of a retry the other thread disposes: three milliseconds. -/
def watchDelay : Nat := 3_000_000

/-- A blocking run beside an alarm that counts retries. An alarm that is due afterwards still goes
off. -/
def runWatched (c : CallId) (n : Nat) (x : Exchange) : (RunReply × Option Bool) × Exchange :=
  let alarm := ((x.call? c).bind (·.feed)).map fun feed =>
    ({ target := c, trigger := .retries feed n watchDelay } : Alarm)
  let (reply, x) := { x with alarm }.run c
  let x := match x.alarm with
    | some ⟨_, .clock due, none⟩ => x.elapse (due - x.clock)
    | _ => x
  ((reply, x.alarm.bind (·.answer)), { x with alarm := none })

def runTimed (c : CallId) (x : Exchange) : (RunReply × Nat) × Exchange :=
  let (reply, x) := { x with timer := 0 }.runAsync c
  ((reply, x.timer), x)

/-- An asynchronous run beside an alarm on its timer. At zero milliseconds the handle is disposed
before the run begins; an alarm that is not reached goes off afterwards. The alarm waits no longer
than a timer can. -/
def spawn (c : CallId) (disposeAfter : Option Nat) (x : Exchange) :
    (RunReply × Option Bool × Nat) × Exchange :=
  match disposeAfter with
  | none =>
    let ((reply, millis), x) := runTimed c x
    ((reply, none, millis), x)
  | some 0 =>
    let (answer, x) := x.dispose c
    let ((reply, millis), x) := runTimed c x
    ((reply, answer, millis), x)
  | some millis =>
    let due := min millis Exchange.longestWait
    let x := { x with alarm := some { target := c, trigger := .timer due } }
    let ((reply, _), x) := runTimed c x
    let x := match x.alarm with
      | some ⟨target, trigger, none⟩ =>
        { x with timer := max x.timer due }.ring ⟨target, trigger, none⟩
      | _ => x
    ((reply, x.alarm.bind (·.answer), x.timer), { x with alarm := none })

def runUnstaffed (c : CallId) (x : Exchange) : RunReply × Exchange :=
  let (reply, x) := { x with staffed := false }.runAsync c
  (reply, { x with staffed := true })

def onCall (s : Session) (c : CallId) (f : Call → Answer × Session) : Answer × Session :=
  match s.exchange.present? c with
  | none => (.noCall, s)
  | some call => f call

/-- The answer to a question that needs an effect on the call. -/
def flagged (answer : Option Bool) : Answer :=
  match answer with
  | none => .noCall
  | some value => .flag value

def execute (s : Session) : Command → Answer × Session
  | .run c =>
    match s.exchange.present? c with
    | none => (.ran .absent 0, s)
    | some _ =>
      let (reply, t) := s.update (Exchange.run c)
      (.ran reply (t.exchange.clock - s.exchange.clock), t)
  | .runWatched c n => s.onCall c fun _ =>
    let ((reply, disposed), t) := s.update (runWatched c n)
    (.watched reply disposed (t.exchange.clock - s.exchange.clock), t)
  | .runAsync c => s.onCall c fun _ =>
    let ((reply, millis), t) := s.update (runTimed c)
    (.driven reply millis, t)
  | .spawn c disposeAfter => s.onCall c fun _ =>
    let ((reply, disposed, millis), t) := s.update (spawn c disposeAfter)
    (.spawned reply disposed millis, t)
  | .runUnstaffed c => s.onCall c fun _ =>
    let (reply, t) := s.update (runUnstaffed c)
    (.unstaffed reply, t)
  | .close c =>
    let (answer, t) := s.update (·.close c)
    (flagged answer, t)
  | .dispose c =>
    let (answer, t) := s.update (·.dispose c)
    (flagged answer, t)
  | .isSignalled c =>
    match s.exchange.call? c with
    | none => (.noCall, s)
    | some call => (.flag call.handle.signalled, s)
  | .info c => s.onCall c fun call => (.info (call.info s.exchange.feeds), s)
  | .debug c => s.onCall c fun call => (.text call.debugText, s)
  | .subscribe c => s.onCall c fun call =>
    match call.feed with
    | none => (.flag false, s)
    | some feed => (.flag true, s.addTap (.late c) feed)
  | .unsubscribe =>
    let feeds := s.taps.foldl (fun feeds tap => feeds.modify tap.feed (·.unsubscribe tap.reader))
      s.exchange.feeds
    (.nothing, { exchange := { s.exchange with feeds }, taps := [] })
  | .drop c =>
    match s.update (·.drop c) with
    | (none, t) => (.noCall, t)
    | (some _, t) => (.dropped, t)

/-- What every reader has received since the last time; readers without news are left out. -/
def collect (s : Session) : List (TapLabel × List (Reading Event)) × Session :=
  s.taps.foldl
    (fun (news, s) tap =>
      match s.exchange.feeds[tap.feed]? with
      | none => (news, s)
      | some feed =>
        let (readings, feed) := feed.readAll tap.reader
        let s := { s with
          exchange := { s.exchange with feeds := s.exchange.feeds.set tap.feed feed } }
        (if readings.isEmpty then news else news ++ [(tap.label, readings)], s))
    ([], s)

def states (s : Session) : List (Option HandleState) :=
  s.exchange.calls.map (·.map (·.handle.state))

/-- What one sees after a command. -/
structure View where
  answer : Answer
  /-- The new entries of the journal in order. -/
  entries : List Entry
  news : List (TapLabel × List (Reading Event))
  states : List (Option HandleState)

def step (s : Session) (command : Command) : View × Session :=
  let (answer, t) := s.execute command
  let entries :=
    (t.exchange.journal.take (t.exchange.journal.length - s.exchange.journal.length)).reverse
  let (news, t) := t.collect
  (⟨answer, entries, news, t.states⟩, t)

def steps (s : Session) : List Command → List View × Session
  | [] => ([], s)
  | command :: rest =>
    let (view, s) := s.step command
    let (views, s) := s.steps rest
    (view :: views, s)

end Session

end Redial
