import Redial.Call.Progress
import Redial.Delivery.Outbox

/-!
# Courses

What a run does, step by step, as a tree: every node is one step that others can see or that others
answer, with the rest of the run for each answer. A course knows nothing of the state around it.
Who carries it out decides the answers, so all that can happen to a run, disposal by other threads
included, is a path through its course.

There are two ways to run a call. A blocking run invokes the body on its own thread and sleeps
through a pause in short slices. An asynchronous run has the body invoked elsewhere, which can be
refused, and waits for the end of a pause or the disposal of its handle, whichever comes first.
-/

namespace Redial

/-- The steps of a run. -/
inductive Course where
  | finished
  | panics (text : String)
  /-- Take hold of the handle, if nobody has before. -/
  | start (next : Bool → Course)
  | askDisposed (next : Bool → Course)
  | report (notice : Notice) (next : Course)
  | invoke (next : Output → Course)
  /-- Have the body invoked elsewhere; no output means that nobody would. -/
  | dispatch (next : Option Output → Course)
  | consult (fault : Fault) (next : Bool → Course)
  /-- Read the clock, in nanoseconds. -/
  | readClock (next : Nat → Course)
  /-- Sleep for so many nanoseconds. -/
  | sleep (nanos : Nat) (next : Course)
  /-- Wait until the time has passed or the handle is disposed. -/
  | await (delay : Duration) (next : Course)
  /-- Put the verdict into the outbox; the answer is the number of verdicts in it. -/
  | push (verdict : Verdict) (next : Except Delivery.Refusal Nat → Course)
  | pop (next : Option Verdict → Course)
  /-- Hand the verdict to the callback for it, if there is one that has not been used. -/
  | callback (verdict : Verdict) (next : Course)

namespace Course

/-- The instants of the clock that can be named, in nanoseconds. -/
def clockLimit : Nat := UInt64.size / 2 * 1_000_000_000

def deadlineOverflow : String := "overflow when adding duration to instant"

/-- The longest sleep between two looks at the handle. -/
def slice : Nat := 10_000_000

/--
Sleeps towards `deadline` in slices, and ends as soon as the handle is disposed or the deadline is
reached. The first argument bounds the number of looks.
-/
def pauseUntil (deadline : Nat) (next : Course) : Nat → Course
  | 0 => next
  | looks + 1 =>
    askDisposed fun disposed =>
      if disposed then next
      else readClock fun now =>
        if deadline ≤ now then next
        else sleep (min (deadline - now) slice) (pauseUntil deadline next looks)

/-- The looks that a pause needs if the clock advances by at least what is slept: one before each
slice and one at the end. -/
def looksFor (delay : Duration) : Nat := (delay.nanos + slice - 1) / slice + 1

def pause (delay : Duration) (next : Course) : Course :=
  readClock fun now =>
    if now + delay.nanos < clockLimit then pauseUntil (now + delay.nanos) next (looksFor delay)
    else panics deadlineOverflow

/-- Announces the retry after the current attempt, then goes on with its delay. -/
def schedule (plan : Plan) (p : Progress) (retry : Duration → Course) : Course :=
  match plan.backoff.delay p.retryIndex (plan.draws p.retryIndex) with
  | .error e => panics e.message
  | .ok delay => report { p.notice .retryScheduled with delay := some delay } (retry delay)

def judgeFault (plan : Plan) (fault : Fault) (next : Bool → Course) : Course :=
  match plan.rule.answer (.fault fault) with
  | .known retry => next retry
  | .ask _ fault => consult fault next

/-- The rule's answer to an unsuccessful result; no predicate is asked. -/
def judgeUnsuccessful (plan : Plan) : Bool :=
  match plan.rule.answer .unsuccessful with
  | .known retry => retry
  | .ask _ _ => false

/-- Judges the output of the current attempt: another attempt after a delay, or the end. -/
def settle (plan : Plan) (p : Progress) (output : Output)
    (retry : Progress → Duration → Course) (finish : Progress → Verdict → Course) : Course :=
  match output with
  | .ok result =>
    if Outcome.isSuccess result then finish p (.success result)
    else
      let (signalled, p) := p.spend plan.rule.retryUnsuccessful
      report { p.notice .resultUnsuccessful with remaining := some p.budget.remaining }
        (if signalled && judgeUnsuccessful plan && p.mayRetry plan.limit then
          schedule plan p (retry p)
        else finish p (.success result))
  | .error fault =>
    report { p.notice .attemptFailed with error := some fault.text }
      (judgeFault plan fault fun again =>
        if again && p.mayRetry plan.limit then schedule plan p (retry p)
        else finish p (.failure fault))

def verdictNotice (p : Progress) : Verdict → Notice
  | .success _ => { p.notice .callSucceeded with remaining := some p.budget.remaining }
  | .failure fault => { p.notice .callFailed with error := some fault.text }

/-- Empties the outbox, which holds so many verdicts, into the callbacks. -/
def drain (p : Progress) : Nat → Course
  | 0 => finished
  | left + 1 =>
    pop fun
      | none => finished
      | some verdict =>
        askDisposed fun disposed =>
          if disposed then report (p.notice .deliverySuppressed) (drain p left)
          else report (verdictNotice p verdict) (callback verdict (drain p left))

/-- Delivers the verdict through the outbox, unless the handle is disposed. -/
def deliver (p : Progress) (verdict : Verdict) : Course :=
  askDisposed fun disposed =>
    if disposed then report (p.notice .deliverySuppressed) finished
    else push verdict fun
      | .error reason =>
        report { p.notice .deliveryOverflow with error := some reason.message } finished
      | .ok held => drain p held

/-- The attempts of a blocking run, at most so many. -/
def blockingAttempts (plan : Plan) : Nat → Progress → Course
  | 0, _ => finished
  | left + 1, p =>
    askDisposed fun disposed =>
      if disposed then report (p.notice .deliverySuppressed) finished
      else
        let p := p.begin
        report (p.notice .attemptStarting) <| invoke fun output =>
          settle plan p output
            (fun p delay => pause delay (blockingAttempts plan left p))
            deliver

def blocking (plan : Plan) : Course :=
  start fun started =>
    if started then blockingAttempts plan plan.limit.maxAttempts (.start plan.limit) else finished

/-- The attempts of an asynchronous run, at most so many. -/
def asyncAttempts (plan : Plan) : Nat → Progress → Course
  | 0, _ => finished
  | left + 1, p =>
    askDisposed fun disposed =>
      if disposed then report (p.notice .deliverySuppressed) finished
      else
        let p := p.begin
        report (p.notice .attemptStarting) <| dispatch fun
          | none => report (p.notice .deliverySuppressed) finished
          | some output =>
            settle plan p output
              (fun p delay =>
                if delay = .zero then asyncAttempts plan left p
                else await delay (asyncAttempts plan left p))
              deliver

def async (plan : Plan) : Course :=
  start fun started =>
    if started then asyncAttempts plan plan.limit.maxAttempts (.start plan.limit) else finished

end Course

end Redial
