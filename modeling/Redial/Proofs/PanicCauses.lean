import Redial.Proofs.CappedDelays
import Redial.Proofs.ReferenceRun
import Redial.Proofs.Signatures
import Redial.Proofs.Timetables

/-!
# Why a run panics

Beside the user code there is only one thing that can make a run panic, the delay before a retry. It
may not exist, and then the run panics in whatever manner it is carried out. Or it may be so long
that a blocking run cannot name the instant at which its pause will be over. An asynchronous run
names no instant, it waits for any delay.
-/

namespace Redial

open StateTransition

/-- How the run ended that the reply tells of. -/
def RunReply.how? : RunReply → Option (Except Halt Unit)
  | ended how => some how
  | busy | absent => none

lemma RunReply.eq_ended_of_how? {reply : RunReply} {how : Except Halt Unit}
    (h : reply.how? = some how) : reply = .ended how := by
  cases reply with
  | ended how => exact congrArg RunReply.ended (Option.some.inj h)
  | busy | absent => cases h

namespace Plan

variable {plan : Plan} {p : Progress} {manner : Manner} {now : Nat} {text : String}

/-- A call that is canceled after it has disposed itself. The delay before its retry is longer than
the clock can go. -/
def endless : Plan :=
  { Plan.canceled with
    body := fun _ => .act .dispose 0 fun _ => .done (.error .canceled)
    limit := .ofNat 1
    backoff := .steady ⟨Course.clockLimit, by decide⟩ }

/-- One of the retries comes after this delay. -/
def Schedules (plan : Plan) (delay : Duration) : Prop :=
  ∃ retry < plan.limit.retries, plan.backoff.delay retry (plan.draws retry) = .ok delay

/-- What a run of the plan can panic with on its own, when the clock shows `now`. -/
inductive Mishap (plan : Plan) (manner : Manner) (now : Nat) : String → Prop
  | noDelay {retry : Nat} (hretry : retry < plan.limit.retries)
    (hover : plan.backoff.Overruns retry) : Mishap plan manner now Delay.TooLong.seconds.message
  | lateEnd (hmanner : manner = .blocking) (hlate : ¬ plan.FitsClock now) :
    Mishap plan manner now Course.deadlineOverflow

lemma Mishap.of_asynchronous (h : plan.Mishap .asynchronous now text) :
    text = Delay.TooLong.seconds.message ∧
      ∃ retry < plan.limit.retries, plan.backoff.Overruns retry := by
  cases h with
  | noDelay hretry hover => exact ⟨rfl, _, hretry, hover⟩
  | lateEnd hmanner => cases hmanner

lemma Mishap.lateEnd_of_le {delay : Duration} (h : plan.Schedules delay)
    (hlate : ¬ now + delay.nanos < Course.clockLimit) :
    plan.Mishap .blocking now Course.deadlineOverflow := by
  obtain ⟨retry, hretry, hdelay⟩ := h
  exact .lateEnd rfl fun hfits => hlate (hfits retry hretry delay hdelay)

/-- Where there is to be another attempt but no delay before it, the delay has overrun. -/
lemma mishap_of_nextAttempt (h : plan.nextAttempt p = .panics text) (hp : p.attempt ≠ 0)
    (hmay : p.mayRetry plan.limit = true) : plan.Mishap manner now text := by
  unfold nextAttempt at h
  by_cases hover : plan.backoff.Overruns p.retryIndex
  · rw [Delay.Backoff.delay_of_overruns hover] at h
    cases h
    exact .noDelay (Progress.retryIndex_lt hp hmay) hover
  · obtain ⟨d, hd⟩ := Delay.Backoff.exists_base hover
    rw [Delay.Backoff.delay_of_base hd] at h
    cases h

end Plan

namespace Course

/-- Whatever the course is answered and however the clock goes on meanwhile, the course panics only
with what `P` allows for the time at which it does. It is `now` at first. -/
def PanicsOnly (P : Nat → String → Prop) : Course → Nat → Prop
  | finished, _ => True
  | panics text, now => P now text
  | readClock next, now => (next now).PanicsOnly P now
  | start next, _ => ∀ won later, (next won).PanicsOnly P later
  | askDisposed next, _ => ∀ disposed later, (next disposed).PanicsOnly P later
  | invoke next, _ => ∀ output later, (next output).PanicsOnly P later
  | dispatch next, _ => ∀ output later, (next output).PanicsOnly P later
  | consult _ next, _ => ∀ again later, (next again).PanicsOnly P later
  | push _ next, _ => ∀ answer later, (next answer).PanicsOnly P later
  | pop next, _ => ∀ verdict later, (next verdict).PanicsOnly P later
  | report _ next, _ => ∀ later, next.PanicsOnly P later
  | sleep _ next, _ => ∀ later, next.PanicsOnly P later
  | await _ next, _ => ∀ later, next.PanicsOnly P later
  | callback _ next, _ => ∀ later, next.PanicsOnly P later

section Steps

variable {P : Nat → String → Prop} {next : Course}

lemma panicsOnly_pauseUntil (h : ∀ now, next.PanicsOnly P now) (deadline looks now : Nat) :
    (pauseUntil deadline next looks).PanicsOnly P now := by
  induction looks generalizing now with
  | zero => exact h now
  | succ looks ih =>
    intro disposed later
    cases disposed with
    | true => exact h later
    | false =>
      change PanicsOnly P (if deadline ≤ later then _ else _) later
      split
      · exact h later
      · exact ih

lemma panicsOnly_drain (p : Progress) (held now : Nat) : (drain p held).PanicsOnly P now := by
  induction held generalizing now with
  | zero => trivial
  | succ held ih =>
    intro oldest later
    cases oldest with
    | none => trivial
    | some verdict =>
      intro disposed _
      cases disposed with
      | true => exact ih
      | false => exact fun _ => ih

lemma panicsOnly_deliver (p : Progress) (verdict : Verdict) (now : Nat) :
    (deliver p verdict).PanicsOnly P now := by
  intro disposed _
  cases disposed with
  | true => exact fun _ => trivial
  | false =>
    intro answer later
    cases answer with
    | error reason => exact fun _ => trivial
    | ok held => exact panicsOnly_drain p held later

end Steps

variable {plan : Plan} {manner : Manner} {p : Progress} {next : Course}

/-- A pause for a delay of the plan is a mishap only for a blocking run whose clock has no room left
for the delay. -/
lemma panicsOnly_pausing (h : ∀ now, next.PanicsOnly (plan.Mishap manner) now) {delay : Duration}
    (hdelay : plan.Schedules delay) (now : Nat) :
    (manner.pausing delay next).PanicsOnly (plan.Mishap manner) now := by
  cases manner with
  | blocking =>
    change PanicsOnly _ (if now + delay.nanos < clockLimit then _ else _) now
    split
    · exact panicsOnly_pauseUntil h _ _ _
    · rename_i hlate
      exact .lateEnd_of_le hdelay hlate
  | asynchronous =>
    unfold Manner.pausing
    dsimp only
    split
    · exact h now
    · exact h

section Settling

variable {retry : Progress → Duration → Course} {finish : Progress → Verdict → Course}
  (hp : p.attempt ≠ 0)
  (hretry : ∀ q delay now, plan.Schedules delay →
    (retry q delay).PanicsOnly (plan.Mishap manner) now)
  (hfinish : ∀ q verdict now, (finish q verdict).PanicsOnly (plan.Mishap manner) now)
include hp hretry hfinish

/-- What a run has decided on after an attempt. -/
lemma panicsOnly_settlement (q : Progress) (inBudget accepted : Bool) (output : Output) (now : Nat) :
    ((plan.judge p inBudget accepted output).course q retry finish).PanicsOnly
      (plan.Mishap manner) now := by
  rcases plan.judge_cases p inBudget accepted output with ⟨verdict, hdone⟩ | ⟨hagain, hmay⟩
  · rw [hdone]
    exact hfinish q verdict now
  · rw [hagain]
    cases hnext : plan.nextAttempt p with
    | done verdict => exact hfinish q verdict now
    | panics text => exact Plan.mishap_of_nextAttempt hnext hp hmay
    | again delay =>
      have hindex := Progress.retryIndex_lt hp hmay
      have hdelay := Plan.delay_of_nextAttempt hnext
      exact fun later => hretry q delay later ⟨_, hindex, hdelay⟩

lemma panicsOnly_settle (output : Output) (now : Nat) :
    (settle plan p output retry finish).PanicsOnly (plan.Mishap manner) now := by
  have hgoes (accepted : Bool) (later : Nat) : ((plan.settlement p accepted output).course
      (p.charge plan output) retry finish).PanicsOnly (plan.Mishap manner) later :=
    panicsOnly_settlement hp hretry hfinish _ _ accepted output later
  rw [settle_eq]
  cases output with
  | ok result =>
    unfold announce
    dsimp only
    split
    · exact hgoes true now
    · exact hgoes true
  | error fault =>
    intro later
    unfold judgeFault
    split
    · exact hgoes _ later
    · exact hgoes

end Settling

lemma panicsOnly_attempts (left : Nat) (p : Progress) (now : Nat) :
    (plan.attempts left p manner).PanicsOnly (plan.Mishap manner) now := by
  induction left generalizing p now with
  | zero => cases manner <;> trivial
  | succ left ih =>
    -- After a pause the run goes on with the attempts that are left then.
    have hretry (q : Progress) (delay : Duration) (later : Nat) (hdelay : plan.Schedules delay) :
        (manner.pausing delay (plan.attempts left q manner)).PanicsOnly (plan.Mishap manner)
          later :=
      panicsOnly_pausing (ih q) hdelay later
    have hbegun : p.begin.attempt ≠ 0 := p.attempt.succ_ne_zero
    have hsettle := panicsOnly_settle hbegun hretry panicsOnly_deliver
    cases manner with
    | blocking =>
      intro disposed _
      cases disposed with
      | true => exact fun _ => trivial
      | false => exact fun _ => hsettle
    | asynchronous =>
      intro disposed _
      cases disposed with
      | true => exact fun _ => trivial
      | false =>
        intro _ output later
        cases output with
        | none => exact fun _ => trivial
        | some output => exact hsettle output later

/-- A course of a plan panics with nothing but the mishaps of the plan. -/
theorem panicsOnly_course (plan : Plan) (manner : Manner) (now : Nat) :
    (plan.course manner).PanicsOnly (plan.Mishap manner) now := by
  have hattempts : ∀ later, (plan.attempts plan.limit.maxAttempts (.start plan.limit)
      manner).PanicsOnly (plan.Mishap manner) later := panicsOnly_attempts _ _
  cases manner with
  | blocking | asynchronous =>
    intro won later
    cases won with
    | true => exact hattempts later
    | false => trivial

end Course

/-- What is left of the run after its user code. -/
def Sequel.PanicsOnly {α : Type} (P : Nat → String → Prop) (sequel : Sequel α) : Prop :=
  ∀ value now, (sequel.rest value).PanicsOnly P now

/-- What is left of the run at hand. User code may panic with anything. -/
def Task.PanicsOnly (P : Nat → String → Prop) (now : Nat) : Task → Prop
  | run _ course => course.PanicsOnly P now
  | code _ _ _ sequel => sequel.PanicsOnly P
  | ended _ _ => True

/-- The manner of a run that has some askers: only the outermost run need not be blocking. -/
def Manner.within (manner : Manner) : List Asker → Manner
  | [] => manner
  | _ :: _ => .blocking

namespace Exchange

variable {x y : Exchange} {c d : CallId} {plan : Plan} {manner : Manner} {P : Nat → String → Prop}
  {course : Course} {text : String}

/-- Call `c` has this plan. -/
def HasPlan (x : Exchange) (c : CallId) (plan : Plan) : Prop :=
  ∃ call, x.call? c = some call ∧ call.plan = plan

lemma HasPlan.keep (h : x.HasPlan c plan) (hkeeps : x.KeepsCalls y) : y.HasPlan c plan := by
  obtain ⟨call, hcall, rfl⟩ := h
  obtain ⟨after, hafter, hplan, -⟩ := hkeeps c call hcall
  exact ⟨after, hafter, hplan⟩

lemma hasPlan_of_runnable (h : x.runnable c = .ok plan) : x.HasPlan c plan := by
  obtain ⟨call, hcall, -, hplan⟩ := exists_of_runnable h
  exact ⟨call, hcall, hplan⟩

lemma HasPlan.unique {plan' : Plan} (h : x.HasPlan c plan) (h' : x.HasPlan c plan') :
    plan' = plan := by
  obtain ⟨call, hcall, rfl⟩ := h
  obtain ⟨call', hcall', rfl⟩ := h'
  rw [hcall] at hcall'
  cases hcall'
  rfl

lemma KeepsCalls.refl (x : Exchange) : x.KeepsCalls x := fun _ call hcall => ⟨call, hcall, rfl, rfl⟩

lemma keepsCalls_of_reaches {s t : Scene} (h : Reaches Scene.step s t) :
    s.exchange.KeepsCalls t.exchange := by
  induction h with
  | refl => exact .refl _
  | tail _ hstep ih => exact ih.trans (Signs.step hstep).calls

/-- The runs that wait for user code go on as their plans allow. -/
def AnswersFor (x : Exchange) (manner : Manner) : List Asker → Prop
  | [] => True
  | asker :: askers =>
    (∃ plan, x.HasPlan asker.call plan ∧
      asker.sequel.PanicsOnly (plan.Mishap (manner.within askers))) ∧ x.AnswersFor manner askers

lemma AnswersFor.keep {askers : List Asker} (h : x.AnswersFor manner askers)
    (hkeeps : x.KeepsCalls y) : y.AnswersFor manner askers := by
  induction askers with
  | nil => trivial
  | cons asker askers ih =>
    obtain ⟨⟨plan, hplan, hsequel⟩, hrest⟩ := h
    exact ⟨⟨plan, hplan.keep hkeeps, hsequel⟩, ih hrest⟩

lemma panicsOnly_stepIntoBody {rest : Output → Course}
    (h : ∀ output now, (rest output).PanicsOnly P now) (now : Nat) :
    (x.stepIntoBody c rest).1.PanicsOnly P now := by
  unfold stepIntoBody
  split
  · trivial
  · exact h

lemma panicsOnly_stepIntoPredicate {rest : Bool → Course}
    (h : ∀ again now, (rest again).PanicsOnly P now) (fault : Fault) (now : Nat) :
    (x.stepIntoPredicate c fault rest).1.PanicsOnly P now := by
  unfold stepIntoPredicate
  split
  · trivial
  · dsimp only
    split
    · exact h true now
    · exact h

lemma panicsOnly_stepIntoCallback {rest : Course} (h : ∀ now, rest.PanicsOnly P now)
    (verdict : Verdict) (now : Nat) : (x.stepIntoCallback c verdict rest).1.PanicsOnly P now := by
  unfold stepIntoCallback
  split
  · split
    · exact h now
    · exact fun _ => h
  · split
    · exact h now
    · exact fun _ => h
  · exact h now

lemma panicsOnly_resume {asker : Asker} (h : asker.sequel.PanicsOnly P) (c : CallId)
    (how : Except Halt Unit) (x : Exchange) (now : Nat) :
    (asker.resume c how x).1.PanicsOnly P now := by
  unfold Asker.resume
  split
  · trivial
  · exact h

/-- A run that reads the clock does not wait for it to go on; any other step takes what time it
likes. -/
lemma panicsOnly_stepRun (h : course.PanicsOnly P x.clock) :
    (x.stepRun c course).1.PanicsOnly P (x.stepRun c course).2.clock := by
  cases course with
  | finished | panics => trivial
  | readClock next => exact h
  | start next | askDisposed next | pop next => exact h _ _
  | report _ next | sleep _ next | await _ next => exact h _
  | invoke next => exact panicsOnly_stepIntoBody h _
  | consult fault next => exact panicsOnly_stepIntoPredicate h fault _
  | callback verdict next => exact panicsOnly_stepIntoCallback h verdict _
  | dispatch next =>
    rw [stepRun]
    split
    · exact panicsOnly_stepIntoBody (fun output => h (some output)) _
    · exact h none _
  | push verdict next =>
    rw [stepRun]
    split
    · exact h _ _
    · trivial

lemma stuck_of_pushVerdict {verdict : Verdict} {halt : Halt}
    (h : x.pushVerdict c verdict = (.error halt, y)) : halt = .stuck := by
  unfold pushVerdict at h
  split at h
  · cases h
    rfl
  · split at h <;> cases h
    rfl

/-- Neither a call that is not there nor a full outbox makes a run panic. -/
lemma panics_of_stepRun (h : (x.stepRun c course).1 = .ended d (.error (.panic text))) :
    course = .panics text ∧ d = c := by
  have hbody (rest : Output → Course) :
      (x.stepIntoBody c rest).1 ≠ .ended d (.error (.panic text)) := by
    unfold stepIntoBody
    split <;> nofun
  cases course with
  | panics =>
    cases h
    exact ⟨rfl, rfl⟩
  | invoke next => exact absurd h (hbody next)
  | dispatch next =>
    rw [stepRun] at h
    split at h
    · exact absurd h (hbody _)
    · cases h
  | consult =>
    rw [stepRun] at h
    unfold stepIntoPredicate at h
    split at h
    · cases h
    · dsimp only at h
      split at h <;> cases h
  | push verdict =>
    rw [stepRun] at h
    split at h
    · cases h
    · rename_i hpushed
      rw [stuck_of_pushVerdict hpushed] at h
      cases h
  | callback =>
    rw [stepRun] at h
    unfold stepIntoCallback at h
    split at h
    · split at h <;> cases h
    · split at h <;> cases h
    · cases h
  | _ => cases h

/-- That a run panics is an answer for the user code that has asked for the run. -/
lemma resume_ne_panic (asker : Asker) (c : CallId) (how : Except Halt Unit) (x : Exchange) :
    (asker.resume c how x).1 ≠ .ended d (.error (.panic text)) := by
  unfold Asker.resume
  split <;> nofun

end Exchange

namespace Scene

open Exchange

variable {s t : Scene} {c d : CallId} {plan : Plan} {manner : Manner} {text : String}

/-- User code of call `c` is about to panic. -/
def CodePanics (s : Scene) (c : CallId) (text : String) : Prop :=
  ∃ (α : Type) (role : Role) (sequel : Sequel α), s.task = .code role c (.panic text) sequel

/-- Whatever the runs that are under way may panic with on their own, their plans allow for it. The
outermost of them is carried out in the given manner. -/
structure Foreseen (manner : Manner) (s : Scene) : Prop where
  task : ∃ plan, s.exchange.HasPlan s.task.call plan ∧
    s.task.PanicsOnly (plan.Mishap (manner.within s.askers)) s.exchange.clock
  askers : s.exchange.AnswersFor manner s.askers

lemma stepCode_run {α : Type} (role : Role) (c : CallId) (sequel : Sequel α) (askers : List Asker)
    (x : Exchange) (target : CallId) (next : RunReply → Script α) :
    (∃ reply, stepCode role c sequel askers x (.run target next) =
      ⟨.code role c (next reply) sequel, askers, x.note (.nested role c target reply)⟩) ∨
    ∃ plan, x.runnable target = .ok plan ∧ stepCode role c sequel askers x (.run target next) =
      ⟨.run target (.blocking plan), ⟨role, c, next, sequel⟩ :: askers,
        x.setPresence target .busy⟩ := by
  unfold stepCode
  dsimp only
  split
  · cases x.runnable target with
    | error reply => exact Or.inl ⟨reply, rfl⟩
    | ok plan => exact Or.inr ⟨plan, rfl, rfl⟩
  · exact Or.inl ⟨.absent, rfl⟩

namespace Foreseen

lemma opening {x : Exchange} (hrunnable : x.runnable c = .ok plan) (manner : Manner) :
    (x.opening manner c plan).Foreseen manner where
  task := by
    have hkeeps := (Signs.setPresence x c manner.presence).calls
    exact ⟨plan, (hasPlan_of_runnable hrunnable).keep hkeeps, Course.panicsOnly_course plan manner _⟩
  askers := trivial

/-- A step of user code. The run that it enters is blocking. -/
lemma stepCode {α : Type} {role : Role} {script : Script α} {sequel : Sequel α}
    {askers : List Asker} {x : Exchange}
    (h : Foreseen manner ⟨.code role c script sequel, askers, x⟩) :
    (Scene.stepCode role c sequel askers x script).Foreseen manner := by
  have hkeeps : x.KeepsCalls (Scene.stepCode role c sequel askers x script).exchange :=
    (Signs.step (s := ⟨.code role c script sequel, askers, x⟩) rfl).calls
  obtain ⟨⟨plan, hplan, hsequel⟩, haskers⟩ := h
  have hcaller := hplan.keep hkeeps
  have hothers := haskers.keep hkeeps
  cases script with
  | done value => exact ⟨⟨plan, hcaller, hsequel value _⟩, hothers⟩
  | panic text => exact ⟨⟨plan, hcaller, trivial⟩, hothers⟩
  | act deed target next => exact ⟨⟨plan, hcaller, hsequel⟩, hothers⟩
  | run target next =>
    rcases stepCode_run role c sequel askers x target next with
      ⟨reply, hrefused⟩ | ⟨entered, hrunnable, hentered⟩
    · rw [hrefused] at hcaller hothers ⊢
      exact ⟨⟨plan, hcaller, hsequel⟩, hothers⟩
    · rw [hentered] at hcaller hothers hkeeps ⊢
      refine ⟨⟨entered, (hasPlan_of_runnable hrunnable).keep hkeeps, ?_⟩, ⟨plan, hcaller, hsequel⟩,
        hothers⟩
      exact Course.panicsOnly_course entered .blocking x.clock

theorem step (h : s.Foreseen manner) (hstep : s.step = some t) : t.Foreseen manner := by
  have hkeeps := (Signs.step hstep).calls
  obtain ⟨task, askers, x⟩ := s
  cases task with
  | run c course =>
    cases hstep
    obtain ⟨⟨plan, hplan, hcourse⟩, haskers⟩ := h
    refine ⟨⟨plan, ?_, panicsOnly_stepRun hcourse⟩, haskers.keep hkeeps⟩
    change HasPlan _ (x.stepRun c course).1.call plan
    rw [call_stepRun]
    exact hplan.keep hkeeps
  | code role c script sequel =>
    cases hstep
    exact h.stepCode
  | ended c how =>
    cases askers with
    | nil => cases hstep
    | cons asker askers =>
      cases hstep
      obtain ⟨-, ⟨plan, hplan, hsequel⟩, haskers⟩ := h
      refine ⟨⟨plan, ?_, panicsOnly_resume hsequel c how x _⟩, haskers.keep hkeeps⟩
      change HasPlan _ (asker.resume c how x).1.call plan
      rw [asker.call_resume]
      exact hplan.keep hkeeps

theorem reaches (h : s.Foreseen manner) (hreaches : Reaches Scene.step s t) :
    t.Foreseen manner := by
  induction hreaches with
  | refl => exact h
  | tail _ hstep ih => exact ih.step hstep

end Foreseen

/-- A run that panics does so by a step of its own or in its user code, never because of a run that
it has asked for. -/
lemma panics_of_step (hstep : s.step = some t) (ht : t.task = .ended d (.error (.panic text))) :
    s.askers = t.askers ∧ (s.task = .run d (.panics text) ∨ s.CodePanics d text) := by
  obtain ⟨task, askers, x⟩ := s
  cases task with
  | run c course =>
    cases hstep
    obtain ⟨rfl, rfl⟩ := panics_of_stepRun ht
    exact ⟨rfl, Or.inl rfl⟩
  | code role c script sequel =>
    cases hstep
    cases script with
    | panic =>
      cases ht
      exact ⟨rfl, Or.inr ⟨_, role, sequel, rfl⟩⟩
    | done | act => cases ht
    | run target next =>
      rcases stepCode_run role c sequel askers x target next with ⟨reply, hrefused⟩ |
        ⟨entered, -, hentered⟩
      · rw [hrefused] at ht
        cases ht
      · rw [hentered] at ht
        cases ht
  | ended c how =>
    cases askers with
    | nil => cases hstep
    | cons asker askers =>
      cases hstep
      exact absurd ht (resume_ne_panic asker c how x)

/-- Each panic of a run, also of one that user code has asked for. -/
theorem Foreseen.panics (h : s.Foreseen manner) (hstep : s.step = some t)
    (ht : t.task = .ended d (.error (.panic text))) :
    s.CodePanics d text ∨ ∃ plan, s.exchange.HasPlan d plan ∧
      plan.Mishap (manner.within s.askers) s.exchange.clock text := by
  rcases (panics_of_step hstep ht).2 with hrun | hcode
  · obtain ⟨plan, hplan, hpanics⟩ := h.task
    rw [hrun] at hplan hpanics
    exact Or.inr ⟨plan, hplan, hpanics⟩
  · exact Or.inl hcode

end Scene

namespace Delay.Backoff

variable {cap : Duration}

/-- Delays that are no numbers become the cap. -/
def unbounded (cap : Duration) : Backoff := exponential cap cap .nan

lemma delay_unbounded (cap : Duration) (draw : Nat) : (unbounded cap).delay 1 draw = .ok cap :=
  delay_of_base rfl draw

/-- A clock has room for all delays under a cap just if it has room for the cap and for what the cap
becomes on the way through its double. -/
lemma forall_delay_fits_iff (cap : Duration) (now : Nat) :
    (∀ b : Backoff, b.cap = cap → ∀ retry draw delay, b.delay retry draw = .ok delay →
      now + delay.nanos < Course.clockLimit) ↔
    now + cap.nanos < Course.clockLimit ∧ now + cap.reread.nanos < Course.clockLimit := by
  constructor
  · intro h
    have hcap := h (unbounded cap) rfl 1 0 cap (delay_unbounded cap 0)
    refine ⟨hcap, ?_⟩
    unfold Duration.reread
    cases hback : Duration.ofUnits? cap.toUnits with
    | none => exact hcap
    | some back => exact h (steady cap) rfl 0 0 back (delay_steady hback 0)
  · rintro ⟨hcap, hreread⟩ b rfl retry draw delay hdelay
    have hle := delay_le hdelay
    rw [Duration.le_def, Duration.le_def] at hle
    omega

end Delay.Backoff

namespace Exchange

open Course

variable {x : Exchange} {c : CallId} {plan : Plan} {manner : Manner} {text : String}
  {nesting : Nesting} {delay : Duration}

/-- A blocking run panics before a pause just if the clock has no room for the delay. -/
lemma follow_pausing_blocking (x : Exchange) (nesting : Nesting) (c : CallId) (delay : Duration)
    (next : Course) :
    (¬ x.clock + delay.nanos < clockLimit →
      follow nesting c (Manner.blocking.pausing delay next) x =
        (.error (.panic deadlineOverflow), x)) ∧
    (x.clock + delay.nanos < clockLimit → ∃ y, x.KeepsCalls y ∧
      follow nesting c (Manner.blocking.pausing delay next) x = follow nesting c next y) := by
  have hpause : follow nesting c (Manner.blocking.pausing delay next) x =
      follow nesting c (if x.clock + delay.nanos < clockLimit then
        pauseUntil (x.clock + delay.nanos) next (looksFor delay)
        else panics deadlineOverflow) x := rfl
  rw [hpause]
  constructor
  · intro hlate
    rw [if_neg hlate]
    rfl
  · intro hsoon
    rw [if_pos hsoon]
    have helapse (y : Exchange) (nanos : Nat) (hy : x.KeepsCalls y) :
        x.KeepsCalls (y.elapse nanos) :=
      hy.trans (Signs.isCarried.elapse y nanos).calls
    exact follow_pauseUntil helapse (.refl x) _ _

lemma follow_pausing_asynchronous (x : Exchange) (nesting : Nesting) (c : CallId) (delay : Duration)
    (next : Course) :
    ∃ y, x.KeepsCalls y ∧
      follow nesting c (Manner.asynchronous.pausing delay next) x = follow nesting c next y := by
  unfold Manner.pausing
  dsimp only
  split
  · exact ⟨x, .refl x, rfl⟩
  · have hwaited := Signs.isCarried.wait x c delay
    exact ⟨_, (hwaited.trans (Signs.note _ rfl)).calls, rfl⟩

/-- The last step of a run that panics. -/
lemma exists_panic_of_leadsTo {how : Except Halt Unit} {y : Exchange}
    (hrunnable : x.runnable c = .ok plan)
    (hleads : (x.opening manner c plan).LeadsTo ⟨.ended c how, [], y⟩)
    (hhow : how = .error (.panic text)) :
    ∃ s, Reaches Scene.step (x.opening manner c plan) s ∧
      s.step = some ⟨.ended c (.error (.panic text)), [], y⟩ ∧
      (s.CodePanics c text ∨ plan.Mishap manner s.exchange.clock text) := by
  subst hhow
  rcases hleads.reaches.cases_tail with hsame | ⟨s, hreaches, hstep⟩
  · cases hsame
  · have hforeseen := (Scene.Foreseen.opening hrunnable manner).reaches hreaches
    have hplan : s.exchange.HasPlan c plan := by
      have hopened := (Signs.setPresence x c manner.presence).calls
      exact (hasPlan_of_runnable hrunnable).keep (hopened.trans (keepsCalls_of_reaches hreaches))
    have houter : s.askers = [] := (Scene.panics_of_step hstep rfl).1
    refine ⟨s, hreaches, hstep, ?_⟩
    rcases hforeseen.panics hstep rfl with hcode | ⟨planned, hplanned, hmishap⟩
    · exact Or.inl hcode
    · obtain rfl := hplan.unique hplanned
      rw [houter] at hmishap
      exact Or.inr hmishap

/-- What a run panics with. User code aside, every panic of a run, and of every run that is nested
in it, comes from a retry without a delay or, in a blocking run, from a clock that has no room for a
delay of the plan. So a blocking run panics only like that, and an asynchronous run only in its user
code or for want of a delay. A blocking run cannot begin a pause just if the clock has no room for
the delay, where an asynchronous run waits for any delay. The clock has room for all delays that a
cap permits just if it has room for the cap and for what becomes of it as a double. -/
theorem panic_causes (x : Exchange) (c : CallId) (plan : Plan) (hrunnable : x.runnable c = .ok plan) :
    (∀ manner s t d text, Reaches Scene.step (x.opening manner c plan) s → s.step = some t →
      t.task = .ended d (.error (.panic text)) →
      s.CodePanics d text ∨ ∃ plan, s.exchange.HasPlan d plan ∧
        plan.Mishap (manner.within s.askers) s.exchange.clock text) ∧
    (∀ text, (x.run c).1 = .ended (.error (.panic text)) →
      ∃ s y, Reaches Scene.step (x.opening .blocking c plan) s ∧
        s.step = some ⟨.ended c (.error (.panic text)), [], y⟩ ∧
        (s.CodePanics c text ∨ plan.Mishap .blocking s.exchange.clock text)) ∧
    (∀ text, (x.runAsync c).1 = .ended (.error (.panic text)) →
      ∃ s y, Reaches Scene.step (x.opening .asynchronous c plan) s ∧
        s.step = some ⟨.ended c (.error (.panic text)), [], y⟩ ∧
        (s.CodePanics c text ∨ text = Delay.TooLong.seconds.message ∧
          ∃ retry < plan.limit.retries, plan.backoff.Overruns retry)) ∧
    (∀ (nesting : Nesting) (y : Exchange) (delay : Duration) (next : Course),
      (¬ y.clock + delay.nanos < clockLimit →
        follow nesting c (Manner.blocking.pausing delay next) y =
          (.error (.panic deadlineOverflow), y)) ∧
      (y.clock + delay.nanos < clockLimit → ∃ z, y.KeepsCalls z ∧
        follow nesting c (Manner.blocking.pausing delay next) y = follow nesting c next z) ∧
      ∃ z, y.KeepsCalls z ∧
        follow nesting c (Manner.asynchronous.pausing delay next) y = follow nesting c next z) ∧
    ∀ (cap : Duration) (now : Nat),
      (∀ b : Delay.Backoff, b.cap = cap → ∀ retry draw delay, b.delay retry draw = .ok delay →
        now + delay.nanos < clockLimit) ↔
      now + cap.nanos < clockLimit ∧ now + cap.reread.nanos < clockLimit := by
  refine ⟨?_, ?_, ?_, ?_, Delay.Backoff.forall_delay_fits_iff⟩
  · intro manner s t d text hreaches hstep ht
    exact ((Scene.Foreseen.opening hrunnable manner).reaches hreaches).panics hstep ht
  · intro text hpanic
    obtain ⟨how, y, hran, hleads⟩ := leadsTo_run hrunnable
    rw [hran] at hpanic
    obtain ⟨s, hs⟩ := exists_panic_of_leadsTo hrunnable hleads (RunReply.ended.inj hpanic)
    exact ⟨s, y, hs⟩
  · intro text hpanic
    obtain ⟨how, y, hran, hleads⟩ := leadsTo_runAsync hrunnable
    rw [hran] at hpanic
    obtain ⟨s, hreaches, hstep, hcause⟩ :=
      exists_panic_of_leadsTo hrunnable hleads (RunReply.ended.inj hpanic)
    exact ⟨s, y, hreaches, hstep, hcause.imp_right Plan.Mishap.of_asynchronous⟩
  · intro nesting y delay next
    obtain ⟨hlate, hsoon⟩ := follow_pausing_blocking y nesting c delay next
    exact ⟨hlate, hsoon, follow_pausing_asynchronous y nesting c delay next⟩

/-- The endless call on an exchange of its own. -/
def endless : Exchange := ({} : Exchange).addPlan .endless true

lemma run_endless : (endless.run 0).1 = .ended (.error (.panic deadlineOverflow)) :=
  RunReply.eq_ended_of_how? (by decide +kernel)

lemma runAsync_endless : (endless.runAsync 0).1 = .ended (.ok ()) :=
  RunReply.eq_ended_of_how? (by decide +kernel)

/-- The blocking run of the endless call panics, though it is disposed when its pause would begin. -/
theorem panic_causes_endless :
    endless.runnable 0 = .ok .endless ∧
    (endless.run 0).1 = .ended (.error (.panic deadlineOverflow)) ∧
    (endless.runAsync 0).1 = .ended (.ok ()) ∧
    ∃ s y, Reaches Scene.step (endless.opening .blocking 0 .endless) s ∧
      s.step = some ⟨.ended 0 (.error (.panic deadlineOverflow)), [], y⟩ ∧
      (s.CodePanics 0 deadlineOverflow ∨
        Plan.endless.Mishap .blocking s.exchange.clock deadlineOverflow) := by
  have hrunnable : endless.runnable 0 = .ok .endless := rfl
  obtain ⟨-, hblocking, -⟩ := panic_causes endless 0 .endless hrunnable
  exact ⟨hrunnable, run_endless, runAsync_endless, hblocking deadlineOverflow run_endless⟩

/-- A delay can make a blocking run panic where no user code does and every delay exists. -/
theorem not_delays_are_harmless :
    ¬ ∀ (x : Exchange) (c : CallId) (plan : Plan) (feed : Option FeedId) (listed : Bool)
      (outputs : Nat → Output) (answers : Nat → Fault → Bool),
      x.call? c = some (plan.toCall feed listed) → plan.Yields outputs answers →
      (∀ retry draw, ∃ delay, plan.backoff.delay retry draw = .ok delay) →
      ∀ text, (x.run c).1 ≠ .ended (.error (.panic text)) := by
  intro h
  have hyields : Plan.endless.Yields (fun _ => .error .canceled) fun _ _ => true :=
    ⟨fun _ _ => rfl, nofun, nofun, nofun⟩
  have hdelays (retry draw : Nat) : ∃ delay, Plan.endless.backoff.delay retry draw = .ok delay := by
    have hshort : ¬ Plan.endless.backoff.Overruns retry := by
      rintro ⟨-, hlong⟩
      exact absurd hlong (by decide)
    obtain ⟨d, hd⟩ := Delay.Backoff.exists_base hshort
    exact ⟨_, Delay.Backoff.delay_of_base hd draw⟩
  exact h endless 0 .endless none true _ _ rfl hyields hdelays deadlineOverflow run_endless

end Exchange

end Redial
