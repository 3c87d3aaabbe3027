import Redial.Proofs.Alarms
import Redial.Proofs.Deliveries

/-!
# Erasures

Something of an exchange can be forgotten: what its calls do when their outboxes are full, say, or
that anybody listens to events. If only a few conditions hold of what is forgotten, everything that
an exchange does leads to the same, whether it is forgotten before or afterwards: the single
operations, the steps of runs, and whole runs, in whatever way they are nested.
-/

namespace Redial

open Exchange StateTransition

/-- All that a course depends on is the same in both plans. -/
structure Plan.Steers (plan plan' : Plan) : Prop where
  limit : plan.limit = plan'.limit
  backoff : plan.backoff = plan'.backoff
  draws : plan.draws = plan'.draws
  asks : plan.rule.predicate.isSome = plan'.rule.predicate.isSome
  retryUnsuccessful : plan.rule.retryUnsuccessful = plan'.rule.retryUnsuccessful

namespace Plan.Steers

variable {plan plan' : Plan} (h : plan.Steers plan')
include h

lemma judgeFault_eq : Course.judgeFault plan = Course.judgeFault plan' := by
  have hasks := h.asks
  funext fault next
  unfold Course.judgeFault Retry.Rule.answer
  cases hrule : plan.rule.predicate <;> cases hrule' : plan'.rule.predicate <;>
    rw [hrule, hrule'] at hasks <;> first | rfl | cases hasks

lemma judgeUnsuccessful_eq : Course.judgeUnsuccessful plan = Course.judgeUnsuccessful plan' := by
  have hasks := h.asks
  have hretry := h.retryUnsuccessful
  unfold Course.judgeUnsuccessful Retry.Rule.answer
  cases hrule : plan.rule.predicate <;> cases hrule' : plan'.rule.predicate <;>
    rw [hrule, hrule'] at hasks <;> first | rfl | exact hretry | cases hasks

lemma schedule_eq : Course.schedule plan = Course.schedule plan' := by
  funext p retry
  unfold Course.schedule
  rw [h.backoff, h.draws]

lemma settle_eq : Course.settle plan = Course.settle plan' := by
  funext p output retry finish
  unfold Course.settle
  rw [h.judgeFault_eq, h.judgeUnsuccessful_eq, h.schedule_eq, h.limit, h.retryUnsuccessful]

lemma blockingAttempts_eq (left : Nat) :
    Course.blockingAttempts plan left = Course.blockingAttempts plan' left := by
  induction left with
  | zero => rfl
  | succ left ih =>
    funext p
    rw [Course.blockingAttempts, Course.blockingAttempts, ih, h.settle_eq]

lemma asyncAttempts_eq (left : Nat) :
    Course.asyncAttempts plan left = Course.asyncAttempts plan' left := by
  induction left with
  | zero => rfl
  | succ left ih =>
    funext p
    rw [Course.asyncAttempts, Course.asyncAttempts, ih, h.settle_eq]

theorem course_eq (manner : Manner) : plan.course manner = plan'.course manner := by
  cases manner with
  | blocking =>
    unfold Plan.course Course.blocking
    rw [h.blockingAttempts_eq, h.limit]
  | asynchronous =>
    unfold Plan.course Course.async
    rw [h.asyncAttempts_eq, h.limit]

end Plan.Steers

/-- What is forgotten of an exchange and of who listens to it, and under which alarms. -/
structure Erasure where
  plan : Plan → Plan
  feed : Option FeedId → Option FeedId := id
  outbox : Delivery.Outbox Verdict → Delivery.Outbox Verdict := id
  feeds : List (Feed Event) → List (Feed Event) := id
  nextSeq : Nat → Nat := id
  entry : Entry → Entry := id
  taps : List Tap → List Tap := id
  allows : Trigger → Prop := fun _ => True

namespace Erasure

variable (e : Erasure)

def call (call : Call) : Call :=
  { call with
    plan := e.plan call.plan
    feed := e.feed call.feed
    badge := ⟨(e.plan call.plan).name, e.feed call.feed⟩
    badge_eq := rfl
    outbox := e.outbox call.outbox }

def exchange (x : Exchange) : Exchange :=
  { x with
    calls := x.calls.map (·.map e.call)
    feeds := e.feeds x.feeds
    nextSeq := e.nextSeq x.nextSeq
    journal := x.journal.map e.entry }

def scene (s : Scene) : Scene := { s with exchange := e.exchange s.exchange }

/-- The exchange has no alarm but those allowed. -/
def Fits (x : Exchange) : Prop := x.AlarmIn e.allows

/-- What is forgotten plays no part in anything that a call does. -/
structure IsLawful : Prop where
  /-- Only of delivery and events something is forgotten. -/
  plan : ∀ plan : Plan, e.plan plan =
    { plan with delivery := (e.plan plan).delivery, feed := (e.plan plan).feed }
  vacant : ∀ box : Delivery.Outbox Verdict, box.isClosed = false → box.queue = [] →
    (e.outbox box).isClosed = false ∧ (e.outbox box).queue = []
  append : ∀ (box : Delivery.Outbox Verdict) (verdict : Verdict),
    (e.outbox box).append verdict = e.outbox (box.append verdict)
  pop : ∀ box : Delivery.Outbox Verdict,
    (e.outbox box).pop = box.pop.map fun popped => (popped.1, e.outbox popped.2)
  close : ∀ box : Delivery.Outbox Verdict, (e.outbox box).close = e.outbox box.close
  entry : ∀ entry : Entry, entry.isTold = false → e.entry entry = entry
  tell : ∀ (x : Exchange) (c : CallId) (notice : Notice), e.Fits x →
    (e.exchange x).tell c notice = e.exchange (x.tell c notice)
  timer : ∀ due, e.allows (.timer due)
  /-- Alarms that count events are out of place where these are forgotten. -/
  retries : Trigger.IsStable e.allows

end Erasure

namespace Exchange

/-- Runs that have the same beginning have the same end. -/
lemma over_unique {y z : Exchange} {s : Scene} {c d : CallId} {how how' : Except Halt Unit}
    (h : Reaches Scene.step s ⟨.ended c how, [], y⟩)
    (h' : Reaches Scene.step s ⟨.ended d how', [], z⟩) : how = how' ∧ y = z := by
  have hsame := Part.mem_unique (mem_eval.mpr ⟨h, rfl⟩) (mem_eval.mpr ⟨h', rfl⟩)
  cases hsame
  exact ⟨rfl, rfl⟩

end Exchange

namespace Erasure

variable {e : Erasure} {x y : Exchange} {c : CallId} {plan : Plan}

section Exchange

lemma call?_exchange (x : Exchange) (c : CallId) :
    (e.exchange x).call? c = (x.call? c).map e.call := by
  unfold Exchange.call? exchange
  rw [List.getElem?_map]
  cases x.calls[c]? with
  | none => rfl
  | some entry => rfl

/-- A change to a call that has nothing to do with what is forgotten. -/
lemma modify_exchange {f g : Call → Call} (h : ∀ call, g (e.call call) = e.call (f call)) :
    (e.exchange x).modify c g = e.exchange (x.modify c f) := by
  unfold Exchange.modify exchange
  congr 1
  apply List.ext_getElem?
  intro d
  rw [List.getElem?_modify, List.getElem?_map, List.getElem?_map, List.getElem?_modify]
  cases x.calls[d]? with
  | none => rfl
  | some entry =>
    by_cases hcd : c = d
    · cases entry with
      | none => simp [hcd]
      | some call => simp [hcd, h]
    · simp [hcd]

lemma present?_exchange (x : Exchange) (c : CallId) :
    (e.exchange x).present? c = (x.present? c).map e.call := by
  unfold Exchange.present?
  rw [call?_exchange]
  cases x.call? c with
  | none => rfl
  | some call =>
    have hpresence : (e.call call).presence = call.presence := rfl
    dsimp only [Option.map_some]
    rw [hpresence]
    split
    · rfl
    · rfl

lemma setPresence_exchange (x : Exchange) (c : CallId) (presence : Presence) :
    (e.exchange x).setPresence c presence = e.exchange (x.setPresence c presence) :=
  modify_exchange fun _ => rfl

lemma reaches_exchange (x : Exchange) (c : CallId) : (e.exchange x).reaches c = x.reaches c := by
  unfold Exchange.reaches
  rw [call?_exchange]
  cases x.call? c with
  | none => rfl
  | some call => rfl

lemma start_exchange (x : Exchange) (c : CallId) :
    (e.exchange x).start c = ((x.start c).1, e.exchange (x.start c).2) := by
  unfold Exchange.start
  rw [call?_exchange]
  cases x.call? c with
  | none => rfl
  | some call => exact congrArg (Prod.mk _) (modify_exchange fun _ => rfl)

lemma isDisposed_exchange (x : Exchange) (c : CallId) :
    (e.exchange x).isDisposed c = x.isDisposed c := by
  unfold Exchange.isDisposed
  rw [call?_exchange]
  cases x.call? c with
  | none => rfl
  | some call => rfl

lemma runnable_exchange (x : Exchange) (c : CallId) :
    (e.exchange x).runnable c = (x.runnable c).map e.plan := by
  unfold Exchange.runnable
  rw [call?_exchange]
  cases x.call? c with
  | none => rfl
  | some call =>
    have hpresence : (e.call call).presence = call.presence := rfl
    dsimp only [Option.map_some]
    rw [hpresence]
    cases call.presence <;> rfl

end Exchange

section Lawful

variable (he : e.IsLawful)
include he

lemma body_plan (plan : Plan) : (e.plan plan).body = plan.body := by
  rw [he.plan plan]

lemma rule_plan (plan : Plan) : (e.plan plan).rule = plan.rule := by
  rw [he.plan plan]

lemma course_plan (plan : Plan) (manner : Manner) :
    (e.plan plan).course manner = plan.course manner := by
  have hsame : (e.plan plan).Steers plan := by
    rw [he.plan plan]
    exact ⟨rfl, rfl, rfl, rfl, rfl⟩
  exact hsame.course_eq manner

lemma note_exchange (x : Exchange) {entry : Entry} (huntold : entry.isTold = false) :
    (e.exchange x).note entry = e.exchange (x.note entry) := by
  unfold Exchange.note exchange
  rw [List.map_cons, he.entry entry huntold]

lemma popVerdict_exchange (x : Exchange) (c : CallId) :
    (e.exchange x).popVerdict c = ((x.popVerdict c).1, e.exchange (x.popVerdict c).2) := by
  unfold Exchange.popVerdict
  rw [call?_exchange]
  cases x.call? c with
  | none => rfl
  | some call =>
    have hpop : (e.call call).outbox.pop =
        call.outbox.pop.map fun popped => (popped.1, e.outbox popped.2) := he.pop call.outbox
    dsimp only [Option.map_some, Option.bind_some]
    rw [hpop]
    cases call.outbox.pop with
    | none => rfl
    | some popped => exact congrArg (Prod.mk _) (modify_exchange fun _ => rfl)

/-- A verdict meets an outbox that is open and empty. -/
lemma pushVerdict_exchange (h : x.IsVacant c) (verdict : Verdict) :
    (e.exchange x).pushVerdict c verdict =
      ((x.pushVerdict c verdict).1, e.exchange (x.pushVerdict c verdict).2) := by
  obtain ⟨call, hcall, hopen, hempty⟩ := h
  have herased : (e.exchange x).call? c = some (e.call call) := by
    rw [call?_exchange, hcall]
    rfl
  obtain ⟨hopen', hempty'⟩ := he.vacant call.outbox hopen hempty
  rw [Exchange.pushVerdict_of_isOpen hcall hopen hempty,
    Exchange.pushVerdict_of_isOpen herased hopen' hempty']
  refine congrArg (Prod.mk _) (modify_exchange fun former => ?_)
  unfold Erasure.call
  rw [← he.append]

lemma stepIntoBody_exchange (x : Exchange) (c : CallId) (rest : Output → Course) :
    (e.exchange x).stepIntoBody c rest =
      ((x.stepIntoBody c rest).1, e.exchange (x.stepIntoBody c rest).2) := by
  unfold Exchange.stepIntoBody
  rw [call?_exchange]
  cases x.call? c with
  | none => rfl
  | some call =>
    have hcounted : (e.exchange x).modify c ({ · with bodyCalls := call.bodyCalls + 1 }) =
        e.exchange (x.modify c ({ · with bodyCalls := call.bodyCalls + 1 })) :=
      modify_exchange fun _ => rfl
    have hbody : (e.call call).plan.body = call.plan.body := body_plan he call.plan
    have hcalls : (e.call call).bodyCalls = call.bodyCalls := rfl
    dsimp only [Option.map_some]
    rw [hbody, hcalls, hcounted, note_exchange he _ rfl]

lemma stepIntoPredicate_exchange (x : Exchange) (c : CallId) (fault : Fault)
    (rest : Bool → Course) : (e.exchange x).stepIntoPredicate c fault rest =
      ((x.stepIntoPredicate c fault rest).1, e.exchange (x.stepIntoPredicate c fault rest).2) := by
  unfold Exchange.stepIntoPredicate
  rw [call?_exchange]
  cases x.call? c with
  | none => rfl
  | some call =>
    have hrule : (e.call call).plan.rule = call.plan.rule := rule_plan he call.plan
    dsimp only [Option.map_some]
    rw [hrule]
    cases call.plan.rule.predicate with
    | none => rfl
    | some predicate => exact congrArg (Prod.mk _) (modify_exchange fun _ => rfl)

lemma stepIntoCallback_exchange (x : Exchange) (c : CallId) (verdict : Verdict) (rest : Course) :
    (e.exchange x).stepIntoCallback c verdict rest =
      ((x.stepIntoCallback c verdict rest).1,
        e.exchange (x.stepIntoCallback c verdict rest).2) := by
  unfold Exchange.stepIntoCallback
  rw [call?_exchange]
  cases x.call? c with
  | none => rfl
  | some call =>
    cases verdict with
    | success result =>
      have hcallback : (e.call call).onSuccess = call.onSuccess := rfl
      have hused : (e.exchange x).modify c ({ · with onSuccess := none }) =
          e.exchange (x.modify c ({ · with onSuccess := none })) := modify_exchange fun _ => rfl
      dsimp only [Option.map_some]
      rw [hcallback, hused, note_exchange he _ rfl]
      cases call.onSuccess with
      | none => rfl
      | some callback => rfl
    | failure fault =>
      have hcallback : (e.call call).onFailure = call.onFailure := rfl
      have hused : (e.exchange x).modify c ({ · with onFailure := none }) =
          e.exchange (x.modify c ({ · with onFailure := none })) := modify_exchange fun _ => rfl
      dsimp only [Option.map_some]
      rw [hcallback, hused, note_exchange he _ rfl]
      cases call.onFailure with
      | none => rfl
      | some callback => rfl

lemma noteAny_exchange (x : Exchange) {entry : Option Entry}
    (huntold : ∀ noted ∈ entry, noted.isTold = false) :
    (e.exchange x).noteAny entry = e.exchange (x.noteAny entry) := by
  cases entry with
  | none => rfl
  | some entry => exact note_exchange he x (huntold entry rfl)

lemma opening_exchange (x : Exchange) (manner : Manner) (c : CallId) (plan : Plan) :
    (e.exchange x).opening manner c (e.plan plan) = e.scene (x.opening manner c plan) := by
  unfold Exchange.opening scene
  rw [setPresence_exchange, course_plan he]

lemma resume_exchange (asker : Asker) (c : CallId) (how : Except Halt Unit) (x : Exchange) :
    asker.resume c how (e.exchange x) =
      ((asker.resume c how x).1, e.exchange (asker.resume c how x).2) := by
  unfold Asker.resume
  rw [setPresence_exchange]
  split
  · rfl
  · rw [note_exchange he _ rfl]

section Fits

variable (h : e.Fits x)
include h

lemma dispose_exchange (c : CallId) :
    (e.exchange x).dispose c = ((x.dispose c).1, e.exchange (x.dispose c).2) := by
  rw [dispose_eq_tell, dispose_eq_tell x, call?_exchange]
  cases x.call? c with
  | none => rfl
  | some call =>
    have hchanged : (e.exchange x).modify c ({ · with handle := call.handle.dispose.2 }) =
        e.exchange (x.modify c ({ · with handle := call.handle.dispose.2 })) :=
      modify_exchange fun _ => rfl
    have hhandle : (e.call call).handle = call.handle := rfl
    have hfits : e.Fits (x.modify c ({ · with handle := call.handle.dispose.2 })) := h.of_alarm rfl
    dsimp only [Option.map_some]
    rw [hhandle, hchanged]
    split
    · rw [he.tell _ c _ hfits]
    · rfl

lemma close_exchange (c : CallId) :
    (e.exchange x).close c = ((x.close c).1, e.exchange (x.close c).2) := by
  unfold Exchange.close
  rw [present?_exchange]
  cases x.present? c with
  | none => rfl
  | some call => exact dispose_exchange he h c

lemma release_exchange (c : CallId) : (e.exchange x).release c = e.exchange (x.release c) := by
  unfold Exchange.release
  rw [dispose_exchange he h]
  refine modify_exchange fun call => ?_
  unfold Erasure.call
  rw [← he.close]

lemma drop_exchange (c : CallId) :
    (e.exchange x).drop c = ((x.drop c).1, e.exchange (x.drop c).2) := by
  unfold Exchange.drop
  rw [present?_exchange]
  cases x.present? c with
  | none => rfl
  | some call =>
    have hgone : (e.exchange x).modify c ({ · with presence := .gone }) =
        e.exchange (x.modify c ({ · with presence := .gone })) := modify_exchange fun _ => rfl
    have hfits : e.Fits (x.modify c ({ · with presence := .gone })) := h.of_alarm rfl
    dsimp only [Option.map_some]
    rw [hgone, release_exchange he hfits]

lemma perform_exchange (deed : Deed) (c : CallId) :
    (e.exchange x).perform deed c = ((x.perform deed c).1, e.exchange (x.perform deed c).2) := by
  cases deed with
  | dispose => exact dispose_exchange he h c
  | close => exact close_exchange he h c
  | drop => exact drop_exchange he h c

lemma performFor_exchange (deed : Deed) (c : CallId) :
    (e.exchange x).performFor deed c =
      ((x.performFor deed c).1, e.exchange (x.performFor deed c).2) := by
  unfold Exchange.performFor
  rw [reaches_exchange]
  split
  · exact perform_exchange he h deed c
  · rfl

lemma ring_exchange (alarm : Alarm) : (e.exchange x).ring alarm = e.exchange (x.ring alarm) := by
  unfold Exchange.ring
  rw [dispose_exchange he h]
  rfl

lemma elapse_exchange (nanos : Nat) :
    (e.exchange x).elapse nanos = e.exchange (x.elapse nanos) := by
  have halarm : (e.exchange x).alarm = x.alarm := rfl
  have hclock : (e.exchange x).clock = x.clock := rfl
  have hfits : e.Fits { x with clock := x.clock + nanos } := h.of_alarm rfl
  unfold Exchange.elapse
  dsimp only
  rw [halarm, hclock]
  split
  · split
    · exact ring_exchange he hfits _
    · rfl
  · rfl

lemma wait_exchange (c : CallId) (delay : Duration) :
    (e.exchange x).wait c delay = e.exchange (x.wait c delay) := by
  have hsignalled : ((e.exchange x).call? c).any (·.handle.signalled) =
      (x.call? c).any (·.handle.signalled) := by
    rw [call?_exchange]
    cases x.call? c with
    | none => rfl
    | some call => rfl
  have halarm : (e.exchange x).alarm = x.alarm := rfl
  have htimer : (e.exchange x).timer = x.timer := rfl
  unfold Exchange.wait
  rw [hsignalled]
  split
  · rfl
  · dsimp only
    rw [halarm, htimer]
    split
    case h_1 target due _ =>
      have hfits : e.Fits { x with timer := max x.timer due } := h.of_alarm rfl
      have hrang := ring_exchange he hfits ⟨target, .timer due, none⟩
      split
      · split
        · exact hrang
        · let deadline := x.timer + Exchange.timerMillis delay
          exact congrArg (fun y : Exchange => { y with timer := deadline }) hrang
      · rfl
    case h_2 => rfl

/-- A step of a run on its own course. -/
theorem stepRun_exchange {course : Course}
    (hpush : ∀ verdict next, course = .push verdict next → x.IsVacant c) :
    (e.exchange x).stepRun c course =
      ((x.stepRun c course).1, e.exchange (x.stepRun c course).2) := by
  have hstaffed : (e.exchange x).staffed = x.staffed := rfl
  cases course with
  | finished | panics | readClock => rfl
  | start next => rw [Exchange.stepRun, Exchange.stepRun, start_exchange]
  | askDisposed next => rw [Exchange.stepRun, Exchange.stepRun, isDisposed_exchange]
  | report notice next => rw [Exchange.stepRun, Exchange.stepRun, he.tell x c notice h]
  | invoke next => exact stepIntoBody_exchange he x c next
  | dispatch next =>
    rw [Exchange.stepRun, Exchange.stepRun, hstaffed]
    split
    · exact stepIntoBody_exchange he x c _
    · rfl
  | consult fault next => exact stepIntoPredicate_exchange he x c fault next
  | sleep nanos next => rw [Exchange.stepRun, Exchange.stepRun, elapse_exchange he h]
  | await delay next =>
    rw [Exchange.stepRun, Exchange.stepRun, wait_exchange he h, note_exchange he _ rfl]
  | push verdict next =>
    have hvacant := hpush verdict next rfl
    rw [Exchange.stepRun, Exchange.stepRun, pushVerdict_exchange he hvacant]
    generalize x.pushVerdict c verdict = pushed
    obtain ⟨answer, y⟩ := pushed
    cases answer with
    | ok answer => rfl
    | error halt => rfl
  | pop next => rw [Exchange.stepRun, Exchange.stepRun, popVerdict_exchange he]
  | callback verdict next => exact stepIntoCallback_exchange he x c verdict next

end Fits

section Scenes

variable {s t : Scene}

lemma stepCode_scene {α : Type} (h : e.Fits x) (role : Role) (c : CallId) (sequel : Sequel α)
    (askers : List Asker) (script : Script α) :
    Scene.stepCode role c sequel askers (e.exchange x) script =
      e.scene (Scene.stepCode role c sequel askers x script) := by
  cases script with
  | done value =>
    rw [Scene.stepCode, noteAny_exchange he x (sequel.untold value)]
    rfl
  | panic text => rfl
  | act deed target next =>
    rw [Scene.stepCode, performFor_exchange he h]
    dsimp only
    rw [note_exchange he _ rfl]
    rfl
  | run target next =>
    rw [Scene.stepCode, Scene.stepCode, reaches_exchange, runnable_exchange]
    dsimp only
    split
    · cases x.runnable target with
      | error reply =>
        dsimp only [Except.map]
        rw [note_exchange he _ rfl]
        rfl
      | ok plan =>
        have hcourse : Course.blocking (e.plan plan) = Course.blocking plan :=
          course_plan he plan .blocking
        dsimp only [Except.map]
        rw [hcourse, setPresence_exchange]
        rfl
    · rw [note_exchange he _ rfl]
      rfl

/-- A step leads to the same, whether something is forgotten before or afterwards. -/
theorem step_scene (hs : s.Orderly) (h : e.Fits s.exchange) :
    (e.scene s).step = s.step.map e.scene := by
  have hdelivers := hs.delivers
  obtain ⟨task, askers, x⟩ := s
  cases task with
  | run c course =>
    have hpush (verdict next) (hcourse : course = .push verdict next) : x.IsVacant c :=
      (hdelivers.push c verdict next (by rw [hcourse])).1
    unfold scene
    rw [Scene.step_run, Scene.step_run, stepRun_exchange he h hpush]
    rfl
  | code role c script sequel =>
    exact congrArg some (stepCode_scene he h role c sequel askers script)
  | ended c how =>
    cases askers with
    | nil => rfl
    | cons asker askers =>
      have hresumed := resume_exchange he asker c how x
      exact congrArg (fun resumed => some (Scene.mk resumed.1 askers resumed.2)) hresumed

theorem reaches_scene (hs : s.Orderly) (h : e.Fits s.exchange)
    (hreaches : Reaches Scene.step s t) : Reaches Scene.step (e.scene s) (e.scene t) := by
  induction hreaches with
  | refl => exact .refl
  | tail hpast hstep ih =>
    refine ih.tail ?_
    rw [step_scene he (hs.reaches hpast) (AlarmIn.reaches he.retries h hpast)]
    exact congrArg (Option.map e.scene) hstep

/-- What steps lead to on one exchange, they lead to on another one that differs only in what is
forgotten. -/
theorem exists_reaches {s' : Scene} (hs : s.Orderly) (h : e.Fits s.exchange) (hs' : s'.Orderly)
    (h' : e.Fits s'.exchange) (hsame : e.scene s' = e.scene s)
    (hreaches : Reaches Scene.step s t) :
    ∃ t', Reaches Scene.step s' t' ∧ e.scene t' = e.scene t := by
  induction hreaches with
  | refl => exact ⟨s', .refl, hsame⟩
  | tail hpast hstep ih =>
    obtain ⟨before, hbefore, hsame⟩ := ih
    -- Steps are functions, and the erased scenes are the same, so the next ones are as well.
    have hnext := step_scene he (hs'.reaches hbefore) (AlarmIn.reaches he.retries h' hbefore)
    rw [hsame, step_scene he (hs.reaches hpast) (AlarmIn.reaches he.retries h hpast), hstep] at hnext
    obtain ⟨after, hafter, hsame⟩ := Option.map_eq_some_iff.mp hnext.symm
    exact ⟨after, hbefore.tail hafter, hsame⟩

end Scenes

section Runs

variable (h : e.Fits x)
include h

/-- A run ends the same, whether something is forgotten before or afterwards. -/
lemma over_exchange (hx : x.Ready) (hrunnable : x.runnable c = .ok plan) {manner : Manner}
    {how how' : Except Halt Unit} {y' : Exchange}
    (hleads : Reaches Scene.step (x.opening manner c plan) ⟨.ended c how, [], y⟩)
    (hleads' : Reaches Scene.step ((e.exchange x).opening manner c (e.plan plan))
      ⟨.ended c how', [], y'⟩) : how' = how ∧ y' = e.exchange y := by
  have hreaches := reaches_scene he (hx.opening hrunnable manner) (h.of_alarm rfl) hleads
  rw [← opening_exchange he] at hreaches
  exact Exchange.over_unique hleads' hreaches

theorem run_exchange (hx : x.Ready) (c : CallId) :
    (e.exchange x).run c = ((x.run c).1, e.exchange (x.run c).2) := by
  have herased := runnable_exchange (e := e) x c
  cases hrunnable : x.runnable c with
  | error reply =>
    rw [hrunnable] at herased
    rw [Exchange.run_of_error hrunnable, Exchange.run_of_error herased]
  | ok plan =>
    rw [hrunnable] at herased
    obtain ⟨how, y, hran, hleads⟩ := Exchange.leadsTo_run hrunnable
    obtain ⟨how', y', hran', hleads'⟩ := Exchange.leadsTo_run herased
    obtain ⟨rfl, rfl⟩ := over_exchange he h hx hrunnable hleads.reaches hleads'.reaches
    rw [hran, hran', setPresence_exchange]

theorem runAsync_exchange (hx : x.Ready) (c : CallId) :
    (e.exchange x).runAsync c = ((x.runAsync c).1, e.exchange (x.runAsync c).2) := by
  have herased := runnable_exchange (e := e) x c
  cases hrunnable : x.runnable c with
  | error reply =>
    rw [hrunnable] at herased
    rw [Exchange.runAsync_of_error hrunnable, Exchange.runAsync_of_error herased]
  | ok plan =>
    rw [hrunnable] at herased
    obtain ⟨how, y, hran, hleads⟩ := Exchange.leadsTo_runAsync hrunnable
    obtain ⟨how', y', hran', hleads'⟩ := Exchange.leadsTo_runAsync herased
    have hy := AlarmIn.reaches he.retries (h.of_alarm rfl) hleads.reaches
    obtain ⟨rfl, rfl⟩ := over_exchange he h hx hrunnable hleads.reaches hleads'.reaches
    rw [hran, hran', release_exchange he hy]

end Runs

end Lawful

end Erasure

end Redial
