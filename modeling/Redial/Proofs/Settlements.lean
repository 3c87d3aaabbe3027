import Redial.Proofs.AttemptCount
import Redial.Proofs.Watches

/-!
# Settlements

What a run does with the output of an attempt comes in two parts: it tells of the output and has a
fault judged, and then it goes on with what follows from the output, the budget and the attempts so
far. The second part is a decision that depends on nothing else.
-/

namespace Redial

universe u

/-- The body returned a result that is not a success. -/
def isUnsuccessful : Output → Bool
  | .ok result => !Outcome.isSuccess result
  | .error _ => false

/-- What a run does after an attempt. -/
inductive Settlement where
  | again (delay : Duration)
  | done (verdict : Verdict)
  /-- There is no delay before the next attempt, as it would be too long. -/
  | panics (text : String)
  deriving DecidableEq

namespace Settlement

/-- The course of a run from its decision on. -/
def course (settlement : Settlement) (p : Progress) (retry : Progress → Duration → Course)
    (finish : Progress → Verdict → Course) : Course :=
  match settlement with
  | again delay => .report { p.notice .retryScheduled with delay := some delay } (retry p delay)
  | done verdict => finish p verdict
  | panics text => .panics text

end Settlement

/-- The progress with the output of the current attempt charged to the budget. -/
def Progress.charge (p : Progress) (plan : Plan) (output : Output) : Progress :=
  if isUnsuccessful output then (p.spend plan.rule.retryUnsuccessful).2 else p

namespace Plan

def nextAttempt (plan : Plan) (p : Progress) : Settlement :=
  match plan.backoff.delay p.retryIndex (plan.draws p.retryIndex) with
  | .error e => .panics e.message
  | .ok delay => .again delay

/-- The decision after an attempt, by whether there is something in the budget and whether the rule
accepts a fault as a reason to go on. -/
def judge (plan : Plan) (p : Progress) (inBudget accepted : Bool) : Output → Settlement
  | .ok result =>
    if Outcome.isSuccess result then .done (.success result)
    else if (plan.rule.retryUnsuccessful && inBudget) && Course.judgeUnsuccessful plan &&
        p.mayRetry plan.limit then plan.nextAttempt p
    else .done (.success result)
  | .error fault =>
    if accepted && p.mayRetry plan.limit then plan.nextAttempt p else .done (.failure fault)

/-- What a run does after an attempt with a given output. -/
def settlement (plan : Plan) (p : Progress) : Bool → Output → Settlement :=
  plan.judge p p.budget.take.1

end Plan

namespace Course

/-- Tells of an output other than a success, and finds out what the rule says about a fault. -/
def announce (plan : Plan) (p : Progress) (output : Output) (next : Bool → Course) : Course :=
  match output with
  | .ok result =>
    if Outcome.isSuccess result then next true
    else
      let q := p.charge plan output
      report { q.notice .resultUnsuccessful with remaining := some q.budget.remaining } (next true)
  | .error fault =>
    report { p.notice .attemptFailed with error := some fault.text } (judgeFault plan fault next)

end Course

namespace Progress

variable {p : Progress} {plan : Plan}

/-- There is nothing to draw on if drawing is not enabled or the budget is empty. -/
lemma spend_fst_eq (p : Progress) (enabled : Bool) :
    (p.spend enabled).1 = (enabled && p.budget.take.1) := by
  cases enabled <;> rfl

@[simp] lemma attempt_charge (p : Progress) (plan : Plan) (output : Output) :
    (p.charge plan output).attempt = p.attempt := by
  unfold charge
  split
  · exact attempt_spend p _
  · rfl

end Progress

section Settling

variable {plan : Plan} {p : Progress}

lemma isUnsuccessful_ok (result : Result) :
    isUnsuccessful (.ok result) = !Outcome.isSuccess result := rfl

/-- The delay before the next attempt depends on the attempts alone. -/
lemma Course.schedule_eq {q : Progress} (h : q.attempt = p.attempt)
    (retry : Progress → Duration → Course) (finish : Progress → Verdict → Course) :
    schedule plan q (retry q) = (plan.nextAttempt p).course q retry finish := by
  have hindex : q.retryIndex = p.retryIndex := by
    unfold Progress.retryIndex
    rw [h]
  unfold schedule Plan.nextAttempt
  rw [hindex]
  cases plan.backoff.delay p.retryIndex (plan.draws p.retryIndex) <;> rfl

/-- A run tells of the output of an attempt, and then it does what it has decided to do. -/
theorem Course.settle_eq (plan : Plan) (p : Progress) (output : Output)
    (retry : Progress → Duration → Course) (finish : Progress → Verdict → Course) :
    settle plan p output retry finish = announce plan p output fun accepted =>
      (plan.settlement p accepted output).course (p.charge plan output) retry finish := by
  cases output with
  | ok result =>
    cases hresult : Outcome.isSuccess result with
    | true => simp [settle, announce, Plan.settlement, Plan.judge, Settlement.course,
        Progress.charge, isUnsuccessful_ok, hresult]
    | false =>
      have hcharge : p.charge plan (.ok result) = (p.spend plan.rule.retryUnsuccessful).2 :=
        if_pos (by rw [isUnsuccessful_ok, hresult]; rfl)
      have hmay : (p.spend plan.rule.retryUnsuccessful).2.mayRetry plan.limit =
          p.mayRetry plan.limit := by
        unfold Progress.mayRetry
        rw [Progress.attempt_spend]
      simp only [settle, announce, Plan.settlement, Plan.judge, hresult, Bool.false_eq_true,
        if_false, hcharge, hmay, Progress.spend_fst_eq]
      congr 1
      split
      · exact schedule_eq (Progress.attempt_spend _ _) retry finish
      · rfl
  | error fault =>
    have hjudged : (fun accepted : Bool => if accepted && p.mayRetry plan.limit then
          schedule plan p (retry p) else finish p (.failure fault)) =
        fun accepted => (plan.settlement p accepted (.error fault)).course
          (p.charge plan (.error fault)) retry finish := by
      funext accepted
      unfold Plan.settlement Plan.judge
      dsimp only
      split
      · exact schedule_eq rfl retry finish
      · rfl
    unfold settle announce
    rw [← hjudged]

end Settling

/-- A watch that rests admits what a run has decided to do, if it admits both ways to go on. -/
lemma Watch.Rests.settlement {σ : Type u} {w : Watch σ} {s : σ} {p : Progress}
    {retry : Progress → Duration → Course} {finish : Progress → Verdict → Course} (h : w.Rests s)
    (htells : ∀ notice : Notice, notice.kind = .retryScheduled → w.after? s (.told notice) = some s)
    (hretry : ∀ delay, w.Admits (retry p delay) s) (hfinish : ∀ verdict, w.Admits (finish p verdict) s)
    (settlement : Settlement) : w.Admits (settlement.course p retry finish) s := by
  cases settlement with
  | again delay => exact ⟨s, htells _ rfl, hretry delay⟩
  | done verdict => exact hfinish verdict
  | panics => exact h.ends

end Redial
