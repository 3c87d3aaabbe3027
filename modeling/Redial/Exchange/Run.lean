import Redial.Exchange.Basic

/-!
# Runs

Carrying out courses and scripts on an exchange. User code can run other calls, whose user code can
run further ones; the depth of this nesting is bounded by the number of calls, since a call that is
at work cannot be run again.
-/

namespace Redial.Exchange

/-- How requests for a nested run are met. -/
abbrev Nesting := CallId → Exchange → RunReply × Exchange

def Nesting.runFor (nesting : Nesting) (c : CallId) (x : Exchange) : RunReply × Exchange :=
  if x.reaches c then nesting c x else (.absent, x)

def play {α : Type} (nesting : Nesting) (role : Role) (c : CallId) :
    Script α → Exchange → Except Halt α × Exchange
  | .done value, x => (.ok value, x)
  | .panic text, x => (.error (.panic text), x)
  | .act deed target next, x =>
    let (answer, x) := x.performFor deed target
    play nesting role c (next answer) (x.note (.acted role c deed target answer))
  | .run target next, x =>
    match nesting.runFor target x with
    | (.ended (.error .stuck), x) => (.error .stuck, x)
    | (reply, x) => play nesting role c (next reply) (x.note (.nested role c target reply))

/-- User code of call `c` begins: the journal has an entry for it before its first step. -/
def enter {α : Type} (nesting : Nesting) (role : Role) (c : CallId) (entry : Entry)
    (script : Script α) (x : Exchange) : Except Halt α × Exchange :=
  play nesting role c script (x.note entry)

def invokeBody (nesting : Nesting) (c : CallId) (x : Exchange) : Except Halt Output × Exchange :=
  match x.call? c with
  | none => (.error .stuck, x)
  | some call =>
    let n := call.bodyCalls + 1
    (x.modify c ({ · with bodyCalls := n })).enter nesting .body c (.invoked c n) (call.plan.body n)

/-- Invokes the predicate of call `c` on a fault; its answer is noted when it is known. -/
def consultPredicate (nesting : Nesting) (c : CallId) (fault : Fault) (x : Exchange) :
    Except Halt Bool × Exchange :=
  match x.call? c with
  | none => (.error .stuck, x)
  | some call =>
    match call.plan.rule.predicate with
    | none => (.ok true, x)
    | some predicate =>
      let n := call.predicateCalls + 1
      let x := x.modify c ({ · with predicateCalls := n })
      match play nesting .predicate c (predicate n fault) x with
      | (.ok answer, x) => (.ok answer, x.note (.consulted c fault answer))
      | (.error halt, x) => (.error halt, x)

/-- Hands a verdict to the callback for it. A callback is used once at most. -/
def callBack (nesting : Nesting) (c : CallId) (verdict : Verdict) (x : Exchange) :
    Except Halt Unit × Exchange :=
  match x.call? c, verdict with
  | some call, .success result =>
    match call.onSuccess with
    | none => (.ok (), x)
    | some callback =>
      (x.modify c ({ · with onSuccess := none })).enter nesting .onSuccess c (.delivered c verdict)
        (callback result)
  | some call, .failure fault =>
    match call.onFailure with
    | none => (.ok (), x)
    | some callback =>
      (x.modify c ({ · with onFailure := none })).enter nesting .onFailure c (.delivered c verdict)
        (callback fault)
  | none, _ => (.ok (), x)

def start (c : CallId) (x : Exchange) : Bool × Exchange :=
  match x.call? c with
  | none => (false, x)
  | some call =>
    let (started, handle) := call.handle.start
    (started, x.modify c ({ · with handle }))

def pushVerdict (c : CallId) (verdict : Verdict) (x : Exchange) :
    Except Halt (Except Delivery.Refusal Nat) × Exchange :=
  match x.call? c with
  | none => (.error .stuck, x)
  | some call =>
    match call.outbox.push verdict with
    | .accepted outbox => (.ok (.ok outbox.size), x.modify c ({ · with outbox }))
    | .refused reason => (.ok (.error reason), x)
    | .waits => (.error .stuck, x)

def popVerdict (c : CallId) (x : Exchange) : Option Verdict × Exchange :=
  match (x.call? c).bind (·.outbox.pop) with
  | none => (none, x)
  | some (verdict, outbox) => (some verdict, x.modify c ({ · with outbox }))

/-- Carries out a course of call `c`. A panic of user code ends it on the spot. -/
def follow (nesting : Nesting) (c : CallId) : Course → Exchange → Except Halt Unit × Exchange
  | .finished, x => (.ok (), x)
  | .panics text, x => (.error (.panic text), x)
  | .start next, x =>
    let (started, x) := x.start c
    follow nesting c (next started) x
  | .askDisposed next, x =>
    follow nesting c (next ((x.call? c).any (·.handle.isDisposed))) x
  | .report notice next, x => follow nesting c next (x.tell c notice)
  | .invoke next, x =>
    match x.invokeBody nesting c with
    | (.ok output, x) => follow nesting c (next output) x
    | (.error halt, x) => (.error halt, x)
  | .dispatch next, x =>
    if x.staffed then
      match x.invokeBody nesting c with
      | (.ok output, x) => follow nesting c (next (some output)) x
      | (.error halt, x) => (.error halt, x)
    else follow nesting c (next none) x
  | .consult fault next, x =>
    match x.consultPredicate nesting c fault with
    | (.ok answer, x) => follow nesting c (next answer) x
    | (.error halt, x) => (.error halt, x)
  | .readClock next, x => follow nesting c (next x.clock) x
  | .sleep nanos next, x => follow nesting c next (x.elapse nanos)
  | .await delay next, x => follow nesting c next ((x.wait c delay).note (.waited c delay))
  | .push verdict next, x =>
    match x.pushVerdict c verdict with
    | (.ok answer, x) => follow nesting c (next answer) x
    | (.error halt, x) => (.error halt, x)
  | .pop next, x =>
    let (verdict, x) := x.popVerdict c
    follow nesting c (next verdict) x
  | .callback verdict next, x =>
    match x.callBack nesting c verdict with
    | (.ok (), x) => follow nesting c next x
    | (.error halt, x) => (.error halt, x)

def runnable (x : Exchange) (c : CallId) : Except RunReply Plan :=
  match x.call? c with
  | none => .error .absent
  | some call =>
    match call.presence with
    | .gone => .error .absent
    | .busy => .error .busy
    | .here => .ok call.plan

def setPresence (x : Exchange) (c : CallId) (presence : Presence) : Exchange :=
  x.modify c ({ · with presence })

/-- A blocking run of call `c`, with nested runs up to a depth. -/
def runWithin : Nat → CallId → Exchange → RunReply × Exchange
  | depth, c, x =>
    match x.runnable c with
    | .error reply => (reply, x)
    | .ok plan =>
      match depth with
      | 0 => (.busy, x)
      | depth + 1 =>
        let (how, x) := follow (runWithin depth) c (.blocking plan) (x.setPresence c .busy)
        (.ended how, x.setPresence c .here)

def run (c : CallId) (x : Exchange) : RunReply × Exchange :=
  x.runWithin x.calls.length c

/-- An asynchronous run of call `c`, which is given away for it and released at its end, however
that comes. -/
def runAsync (c : CallId) (x : Exchange) : RunReply × Exchange :=
  match x.runnable c with
  | .error reply => (reply, x)
  | .ok plan =>
    let x := x.setPresence c .gone
    let (how, x) := follow (runWithin x.calls.length) c (.async plan) x
    (.ended how, x.release c)

end Redial.Exchange
