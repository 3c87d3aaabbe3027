import Redial.Proofs.LoneCalls

/-!
# Pauses on different clocks

The clock goes on while other calls pause, so a call can find it anywhere. But a run reads it only
within a pause, and only to see how much of the pause is left. Two runs that have the same before
them, each on its own clock, stay like that, step by step. The one exception is the instant at which
a pause will be over, which may be too late to be named.
-/

namespace Redial.Course

/-- The clock is read within pauses only, and a pause is not followed by a panic. -/
inductive Paced : Course → Prop
  | finished : Paced finished
  | panics (text : String) : Paced (panics text)
  | start {next : Bool → Course} (h : ∀ won, Paced (next won)) : Paced (start next)
  | askDisposed {next : Bool → Course} (h : ∀ disposed, Paced (next disposed)) :
    Paced (askDisposed next)
  | report (notice : Notice) {next : Course} (h : Paced next) : Paced (report notice next)
  | invoke {next : Output → Course} (h : ∀ output, Paced (next output)) : Paced (invoke next)
  | dispatch {next : Option Output → Course} (h : ∀ output, Paced (next output)) :
    Paced (dispatch next)
  | consult (fault : Fault) {next : Bool → Course} (h : ∀ again, Paced (next again)) :
    Paced (consult fault next)
  | pause (delay : Duration) {next : Course} (h : Paced next) (hcalm : next.isPanic = false) :
    Paced (pause delay next)
  | await (delay : Duration) {next : Course} (h : Paced next) : Paced (await delay next)
  | push (verdict : Verdict) {next : Except Delivery.Refusal Nat → Course}
    (h : ∀ answer, Paced (next answer)) : Paced (push verdict next)
  | pop {next : Option Verdict → Course} (h : ∀ verdict, Paced (next verdict)) : Paced (pop next)
  | callback (verdict : Verdict) {next : Course} (h : Paced next) : Paced (callback verdict next)

section Plans

variable {plan : Plan}

lemma paced_schedule {retry : Duration → Course} (h : ∀ delay, (retry delay).Paced) (p : Progress) :
    (schedule plan p retry).Paced := by
  unfold schedule
  split
  · exact .panics _
  · exact .report _ (h _)

lemma paced_judgeFault {next : Bool → Course} (h : ∀ again, (next again).Paced) (fault : Fault) :
    (judgeFault plan fault next).Paced := by
  unfold judgeFault
  split
  · exact h _
  · exact .consult _ h

lemma paced_settle {retry : Progress → Duration → Course} {finish : Progress → Verdict → Course}
    (hretry : ∀ p delay, (retry p delay).Paced) (hfinish : ∀ p verdict, (finish p verdict).Paced)
    (p : Progress) (output : Output) : (settle plan p output retry finish).Paced := by
  cases output with
  | ok result =>
    unfold settle
    dsimp only
    split
    · exact hfinish _ _
    · refine .report _ ?_
      split
      · exact paced_schedule (hretry _) _
      · exact hfinish _ _
  | error fault =>
    refine .report _ (paced_judgeFault (fun again => ?_) fault)
    split
    · exact paced_schedule (hretry _) _
    · exact hfinish _ _

lemma paced_drain (p : Progress) (left : Nat) : (drain p left).Paced := by
  induction left with
  | zero => exact .finished
  | succ left ih =>
    refine .pop fun oldest => ?_
    cases oldest with
    | none => exact .finished
    | some verdict =>
      refine .askDisposed fun disposed => ?_
      cases disposed with
      | true => exact .report _ ih
      | false => exact .report _ (.callback _ ih)

lemma paced_deliver (p : Progress) (verdict : Verdict) : (deliver p verdict).Paced := by
  refine .askDisposed fun disposed => ?_
  cases disposed with
  | true => exact .report _ .finished
  | false =>
    refine .push _ fun answer => ?_
    cases answer with
    | error reason => exact .report _ .finished
    | ok held => exact paced_drain p held

lemma isPanic_blockingAttempts (left : Nat) (p : Progress) :
    (blockingAttempts plan left p).isPanic = false := by
  cases left with
  | zero => rfl
  | succ left => rfl

lemma paced_blockingAttempts (left : Nat) (p : Progress) :
    (blockingAttempts plan left p).Paced := by
  induction left generalizing p with
  | zero => exact .finished
  | succ left ih =>
    refine .askDisposed fun disposed => ?_
    cases disposed with
    | true => exact .report _ .finished
    | false =>
      refine .report _ (.invoke fun output => paced_settle (fun q delay => ?_) paced_deliver _ output)
      exact .pause delay (ih q) (isPanic_blockingAttempts left q)

lemma paced_asyncAttempts (left : Nat) (p : Progress) : (asyncAttempts plan left p).Paced := by
  induction left generalizing p with
  | zero => exact .finished
  | succ left ih =>
    refine .askDisposed fun disposed => ?_
    cases disposed with
    | true => exact .report _ .finished
    | false =>
      refine .report _ (.dispatch fun output => ?_)
      cases output with
      | none => exact .report _ .finished
      | some output =>
        refine paced_settle (fun q delay => ?_) paced_deliver _ output
        split
        · exact ih q
        · exact .await delay (ih q)

theorem paced_course (plan : Plan) (manner : Manner) : (plan.course manner).Paced := by
  cases manner with
  | blocking =>
    refine .start fun won => ?_
    cases won with
    | false => exact .finished
    | true => exact paced_blockingAttempts _ _
  | asynchronous =>
    refine .start fun won => ?_
    cases won with
    | false => exact .finished
    | true => exact paced_asyncAttempts _ _

end Plans

/-- A look at the clock within a pause. -/
def look (deadline : Nat) (next : Course) (looks now : Nat) : Course :=
  if deadline ≤ now then next
  else sleep (min (deadline - now) slice) (pauseUntil deadline next looks)

lemma opensPause_look {next : Course} (hcalm : next.isPanic = false) (deadline looks : Nat) :
    opensPause (look deadline next looks) = false := by
  unfold opensPause look
  split
  · exact hcalm
  · rfl

/-- What a run has before it after the clock was read to name the instant at which a pause will be
over. -/
def setOut (delay : Duration) (next : Course) (now : Nat) : Course :=
  if now + delay.nanos < clockLimit then pauseUntil (now + delay.nanos) next (looksFor delay)
  else panics deadlineOverflow

lemma pause_eq (delay : Duration) (next : Course) :
    pause delay next = readClock (setOut delay next) := rfl

lemma opensPause_setOut (delay : Duration) (next : Course) :
    opensPause (setOut delay next) = true := by
  have hlate : ¬ clockLimit + delay.nanos < clockLimit := Nat.not_lt.mpr (Nat.le_add_right _ _)
  unfold opensPause setOut
  rw [if_neg hlate]
  rfl

lemma isPanic_pauseUntil {next : Course} (hcalm : next.isPanic = false) (deadline looks : Nat) :
    (pauseUntil deadline next looks).isPanic = false := by
  cases looks with
  | zero => exact hcalm
  | succ looks => rfl

lemma isPanic_setOut {next : Course} (hcalm : next.isPanic = false) (delay : Duration) (now : Nat) :
    (setOut delay next now).isPanic = !decide (now + delay.nanos < clockLimit) := by
  unfold setOut
  by_cases hsoon : now + delay.nanos < clockLimit
  · rw [if_pos hsoon, isPanic_pauseUntil hcalm, decide_eq_true hsoon, Bool.not_true]
  · rw [if_neg hsoon, decide_eq_false hsoon]
    rfl

/-- Runs that have the same before them, when the clock of the one shows `t` and that of the other
`t'`: within a pause, as much of it is left to the one as to the other. -/
inductive Alike (t t' : Nat) : Course → Course → Prop
  | same {course : Course} (h : course.Paced) : Alike t t' course course
  | looking {next : Course} (h : next.Paced) (hcalm : next.isPanic = false) (left looks : Nat) :
    Alike t t' (pauseUntil (t + left) next (looks + 1)) (pauseUntil (t' + left) next (looks + 1))
  | reading {next : Course} (h : next.Paced) (hcalm : next.isPanic = false) (left looks : Nat) :
    Alike t t' (readClock (look (t + left) next looks)) (readClock (look (t' + left) next looks))
  | sleeping {next : Course} (h : next.Paced) (hcalm : next.isPanic = false) {left nanos : Nat}
    (hleft : nanos ≤ left) (looks : Nat) :
    Alike t t' (sleep nanos (pauseUntil (t + left) next looks))
      (sleep nanos (pauseUntil (t' + left) next looks))

namespace Alike

variable {next : Course} (h : next.Paced) (hcalm : next.isPanic = false)
include h hcalm

lemma pauseUntil (t t' left looks : Nat) :
    Alike t t' (Course.pauseUntil (t + left) next looks)
      (Course.pauseUntil (t' + left) next looks) := by
  cases looks with
  | zero => exact .same h
  | succ looks => exact .looking h hcalm left looks

/-- The handle was looked at. -/
lemma answer (t t' left looks : Nat) (disposed : Bool) :
    Alike t t' (if disposed then next else readClock (look (t + left) next looks))
      (if disposed then next else readClock (look (t' + left) next looks)) := by
  cases disposed with
  | true => exact .same h
  | false => exact .reading h hcalm left looks

/-- The clock was read. -/
lemma look (t t' left looks : Nat) :
    Alike t t' (Course.look (t + left) next looks t) (Course.look (t' + left) next looks t') := by
  unfold Course.look
  rw [Nat.add_sub_cancel_left, Nat.add_sub_cancel_left]
  cases left with
  | zero =>
    rw [if_pos (Nat.le_of_eq (Nat.add_zero t)), if_pos (Nat.le_of_eq (Nat.add_zero t'))]
    exact .same h
  | succ left =>
    rw [if_neg (by omega), if_neg (by omega)]
    exact .sleeping h hcalm (Nat.min_le_left _ _) looks

/-- Some of what was left has passed. -/
lemma awake (t t' : Nat) {left nanos : Nat} (hleft : nanos ≤ left) (looks : Nat) :
    Alike (t + nanos) (t' + nanos) (Course.pauseUntil (t + left) next looks)
      (Course.pauseUntil (t' + left) next looks) := by
  obtain ⟨more, rfl⟩ := Nat.exists_eq_add_of_le hleft
  rw [← Nat.add_assoc, ← Nat.add_assoc]
  exact .pauseUntil h hcalm _ _ more looks

/-- A pause begins, on a clock that shows `t` and on one that is set for it. -/
lemma setOut (t : Nat) (delay : Duration) :
    let inTime := !(Course.setOut delay next t).isPanic
    let t' := if inTime then 0 else clockLimit
    Alike t t' (Course.setOut delay next t) (Course.setOut delay next t') := by
  dsimp only
  rw [isPanic_setOut hcalm, Bool.not_not]
  unfold Course.setOut
  by_cases hsoon : t + delay.nanos < clockLimit
  · have hearly : 0 + delay.nanos < clockLimit := by omega
    simp only [hsoon, hearly, decide_true, if_true]
    exact .pauseUntil h hcalm _ _ _ _
  · have hlate : ¬ clockLimit + delay.nanos < clockLimit := Nat.not_lt.mpr (Nat.le_add_right _ _)
    simp only [hsoon, hlate, decide_false, Bool.false_eq_true, if_false]
    exact .same (.panics _)

end Alike

end Redial.Course
