import Redial.Proofs.Scenes
import Redial.Session

/-!
# Alarms

Only a session sets alarms. Whatever runs and user code do, no alarm is left on an exchange but one
that goes off by the same kind of trigger as the one before. So there is none at all where no other
thread disposes handles.
-/

namespace Redial

open StateTransition

/-- An alarm with such a trigger still has one when a retry was announced. -/
def Trigger.IsStable (A : Trigger → Prop) : Prop :=
  (∀ trigger, A trigger) ∨ ∀ feed n after, ¬ A (.retries feed n after)

namespace Exchange

section Same

variable (x : Exchange) (c : CallId)

lemma alarm_start : (x.start c).2.alarm = x.alarm := by
  unfold start
  cases x.call? c <;> rfl

lemma alarm_stepIntoBody (rest : Output → Course) : (x.stepIntoBody c rest).2.alarm = x.alarm := by
  unfold stepIntoBody
  cases x.call? c <;> rfl

lemma alarm_stepIntoPredicate (fault : Fault) (rest : Bool → Course) :
    (x.stepIntoPredicate c fault rest).2.alarm = x.alarm := by
  unfold stepIntoPredicate
  split
  · rfl
  · split <;> rfl

lemma alarm_stepIntoCallback (verdict : Verdict) (rest : Course) :
    (x.stepIntoCallback c verdict rest).2.alarm = x.alarm := by
  unfold stepIntoCallback
  split
  · split <;> rfl
  · split <;> rfl
  · rfl

lemma alarm_pushVerdict (verdict : Verdict) : (x.pushVerdict c verdict).2.alarm = x.alarm := by
  unfold pushVerdict
  split
  · rfl
  · split <;> rfl

lemma alarm_resume (asker : Asker) (how : Except Halt Unit) :
    (asker.resume c how x).2.alarm = x.alarm := by
  unfold Asker.resume
  split <;> rfl

lemma alarm_popVerdict : (x.popVerdict c).2.alarm = x.alarm := by
  unfold popVerdict
  split <;> rfl

lemma alarm_addPlan (x : Exchange) (plan : Plan) (listed : Bool) :
    (x.addPlan plan listed).alarm = x.alarm := by
  unfold addPlan
  cases plan.feed with
  | none | shared | own => rfl

lemma alarm_addDrafts (x : Exchange) (usual : Delivery.Settings) (draws : Nat → Nat → Nat)
    (drafts : List Draft) : (x.addDrafts usual draws drafts).2.alarm = x.alarm := by
  let motive (built : List (Except DraftError Unit) × Exchange) : Prop :=
    built.2.alarm = x.alarm
  refine List.foldlRecOn (motive := motive) drafts _ rfl fun built hbuilt draft _ => ?_
  dsimp only [motive, addDraft]
  split
  case h_1 => exact hbuilt
  case h_2 plan _ => exact (alarm_addPlan built.2 plan true).trans hbuilt

end Same

/-- The exchange has no alarm but with such a trigger. -/
def AlarmIn (A : Trigger → Prop) (x : Exchange) : Prop :=
  ∀ alarm, x.alarm = some alarm → A alarm.trigger

namespace AlarmIn

variable {A : Trigger → Prop} {x y : Exchange} {s t : Scene}

lemma ring (x : Exchange) {alarm : Alarm} (h : A alarm.trigger) : AlarmIn A (x.ring alarm) := by
  intro alarm' halarm
  cases halarm
  exact h

section Quiet

variable (h : AlarmIn A x)
include h

lemma of_alarm (halarm : y.alarm = x.alarm) : AlarmIn A y := by
  intro alarm hy
  exact h alarm (halarm ▸ hy)

lemma elapse (nanos : Nat) : AlarmIn A (x.elapse nanos) := by
  have hlater : AlarmIn A { x with clock := x.clock + nanos } := h.of_alarm rfl
  unfold Exchange.elapse
  dsimp only
  split
  case h_1 target due halarm =>
    split
    · exact ring _ (h _ halarm)
    · exact hlater
  case h_2 => exact hlater

lemma wait (c : CallId) (delay : Duration) : AlarmIn A (x.wait c delay) := by
  unfold Exchange.wait
  split
  · exact h
  · dsimp only
    split
    case h_1 target due halarm =>
      split
      · have hrang : AlarmIn A (Exchange.ring { x with timer := max x.timer due }
            ⟨target, .timer due, none⟩) :=
          ring _ (h _ halarm)
        split
        · exact hrang
        · exact hrang.of_alarm rfl
      · exact h.of_alarm rfl
    case h_2 => exact h.of_alarm rfl

end Quiet

variable (hA : Trigger.IsStable A)
include hA

section Operations

variable (h : AlarmIn A x)
include h

lemma countRetry (feed : FeedId) : AlarmIn A (x.countRetry feed) := by
  rcases hA with hall | hnone
  · exact fun alarm _ => hall alarm.trigger
  · unfold Exchange.countRetry
    split
    case h_1 target watched n after answer halarm =>
      exact absurd (h _ halarm) (hnone watched n after)
    case h_2 => exact h

lemma tell (c : CallId) (notice : Notice) : AlarmIn A (x.tell c notice) := by
  unfold Exchange.tell Exchange.publish
  cases x.call? c with
  | none => exact h
  | some call =>
    dsimp only
    split
    case h_1 => exact h.of_alarm rfl
    case h_2 feed _ =>
      split
      · refine AlarmIn.countRetry hA ?_ feed
        exact h.of_alarm rfl
      · exact h.of_alarm rfl

lemma dispose (c : CallId) : AlarmIn A (x.dispose c).2 := by
  rw [Exchange.dispose_eq_tell]
  cases x.call? c with
  | none => exact h
  | some call =>
    dsimp only
    split
    · refine AlarmIn.tell hA ?_ c _
      exact h.of_alarm rfl
    · exact h.of_alarm rfl

lemma release (c : CallId) : AlarmIn A (x.release c) :=
  (AlarmIn.dispose hA h c).of_alarm rfl

lemma perform (deed : Deed) (c : CallId) : AlarmIn A (x.perform deed c).2 := by
  rcases Exchange.perform_cases x deed c with hsame | hdisposed | ⟨_, -, -, hdropped⟩
  · rw [hsame]
    exact h
  · rw [hdisposed]
    exact AlarmIn.dispose hA h c
  · rw [hdropped]
    refine AlarmIn.release hA ?_ c
    exact h.of_alarm rfl

lemma performFor (deed : Deed) (c : CallId) :
    AlarmIn A (x.performFor deed c).2 := by
  unfold Exchange.performFor
  split
  · exact AlarmIn.perform hA h deed c
  · exact h

lemma stepRun (c : CallId) (course : Course) :
    AlarmIn A (x.stepRun c course).2 := by
  cases course with
  | finished | panics | askDisposed | readClock => exact h
  | start next => exact h.of_alarm (alarm_start x c)
  | report notice next => exact AlarmIn.tell hA h c notice
  | invoke next => exact h.of_alarm (alarm_stepIntoBody x c next)
  | dispatch next =>
    rw [Exchange.stepRun]
    split
    · exact h.of_alarm (alarm_stepIntoBody x c _)
    · exact h
  | consult fault next => exact h.of_alarm (alarm_stepIntoPredicate x c fault next)
  | sleep nanos next => exact h.elapse nanos
  | await delay next => exact (h.wait c delay).of_alarm rfl
  | push verdict next =>
    have hpushed := alarm_pushVerdict x c verdict
    rw [Exchange.stepRun]
    split
    case h_1 _ heq | h_2 _ heq =>
      rw [heq] at hpushed
      exact h.of_alarm hpushed
  | pop next => exact h.of_alarm (alarm_popVerdict x c)
  | callback verdict next => exact h.of_alarm (alarm_stepIntoCallback x c verdict next)

end Operations

lemma step (h : AlarmIn A s.exchange) (hstep : s.step = some t) : AlarmIn A t.exchange := by
  obtain ⟨task, askers, x⟩ := s
  cases task with
  | run c course =>
    cases hstep
    exact AlarmIn.stepRun hA h c course
  | code role c script sequel =>
    cases hstep
    cases script with
    | done value =>
      refine h.of_alarm ?_
      simp only [Scene.stepCode, Exchange.noteAny]
      split <;> rfl
    | panic text => exact h
    | act deed target next => exact (AlarmIn.performFor hA h deed target).of_alarm rfl
    | run target next =>
      refine h.of_alarm ?_
      rw [Scene.stepCode]
      dsimp only
      split
      · split <;> rfl
      · rfl
  | ended c how =>
    cases askers with
    | nil => cases hstep
    | cons asker askers =>
      cases hstep
      exact h.of_alarm (alarm_resume x c asker how)

lemma reaches (h : AlarmIn A s.exchange) (hreaches : Reaches Scene.step s t) :
    AlarmIn A t.exchange := by
  induction hreaches with
  | refl => exact h
  | tail _ hstep ih => exact AlarmIn.step hA ih hstep

variable (h : AlarmIn A x)
include h

lemma run (c : CallId) : AlarmIn A (x.run c).2 := by
  cases hrunnable : x.runnable c with
  | error reply =>
    rw [Exchange.run_of_error hrunnable]
    exact h
  | ok plan =>
    obtain ⟨how, y, hran, hleads⟩ := Exchange.leadsTo_run hrunnable
    have hy := AlarmIn.reaches hA (h.of_alarm rfl) hleads.reaches
    rw [hran]
    exact hy.of_alarm rfl

lemma runAsync (c : CallId) : AlarmIn A (x.runAsync c).2 := by
  cases hrunnable : x.runnable c with
  | error reply =>
    rw [Exchange.runAsync_of_error hrunnable]
    exact h
  | ok plan =>
    obtain ⟨how, y, hran, hleads⟩ := Exchange.leadsTo_runAsync hrunnable
    have hy := AlarmIn.reaches hA (h.of_alarm rfl) hleads.reaches
    rw [hran]
    exact AlarmIn.release hA hy c

lemma runTimed (c : CallId) : AlarmIn A (Session.runTimed c x).2 := by
  have hbegun : AlarmIn A { x with timer := 0 } := h.of_alarm rfl
  exact AlarmIn.runAsync hA hbegun c

end AlarmIn

end Exchange

namespace Session

open Exchange

variable {A : Trigger → Prop} {s : Session}

/-- Reading touches nothing but the feeds. -/
lemma exchange_collect (s : Session) :
    ∃ feeds, s.collect.2.exchange = { s.exchange with feeds := feeds } := by
  let motive (seen : List (TapLabel × List (Reading Event)) × Session) : Prop :=
    ∃ feeds, seen.2.exchange = { s.exchange with feeds := feeds }
  refine List.foldlRecOn (motive := motive) s.taps _ ⟨s.exchange.feeds, rfl⟩ ?_
  rintro seen ⟨feeds, hseen⟩ tap -
  dsimp only [motive]
  split
  · exact ⟨feeds, hseen⟩
  · exact ⟨_, by rw [hseen]⟩

/-- A session opens without an alarm. -/
lemma alarm_openWith (capacities : List Nat) (drafts : List Draft) (usual : Delivery.Settings)
    (draws : Nat → Nat → Nat) (quiet : Bool) :
    (openWith capacities drafts usual draws quiet).2.exchange.alarm = none := by
  let begun : Exchange := .withFeeds capacities 1
  let motive (s : Session) : Prop := s.exchange.alarm = none
  have hbuilt : (begun.addDrafts usual draws drafts).2.alarm = none :=
    alarm_addDrafts begun usual draws drafts
  show motive (openWith capacities drafts usual draws quiet).2
  unfold openWith
  dsimp only
  split
  · exact hbuilt
  · refine List.foldlRecOn (motive := motive) _ _ ?_ fun s hs entry _ => ?_
    · exact List.foldlRecOn (motive := motive) _ _ hbuilt fun s hs i _ => hs
    · split
      · split
        · exact hs
        · exact hs
      · exact hs

/-- After a command no alarm is left but one that there was before. -/
lemma alarmIn_execute (hA : Trigger.IsStable A) (h : AlarmIn A s.exchange) (command : Command) :
    AlarmIn A (s.execute command).2.exchange := by
  have honCall {c : CallId} {f : Call → Answer × Session}
      (hf : ∀ call, AlarmIn A (f call).2.exchange) : AlarmIn A (s.onCall c f).2.exchange := by
    unfold Session.onCall
    split
    · exact h
    · exact hf _
  have hcleared (y : Exchange) : AlarmIn A { y with alarm := none } := nofun
  cases command with
  | run c =>
    unfold Session.execute
    dsimp only
    split
    · exact h
    · exact AlarmIn.run hA h c
  | runWatched c n => exact honCall fun _ => hcleared _
  | runAsync c => exact honCall fun _ => AlarmIn.runTimed hA h c
  | spawn c disposeAfter =>
    refine honCall fun _ => ?_
    cases disposeAfter with
    | none => exact AlarmIn.runTimed hA h c
    | some millis =>
      cases millis with
      | zero => exact AlarmIn.runTimed hA (AlarmIn.dispose hA h c) c
      | succ millis => exact hcleared _
  | runUnstaffed c =>
    have hbegun : AlarmIn A { s.exchange with staffed := false } := h.of_alarm rfl
    exact honCall fun _ => (AlarmIn.runAsync hA hbegun c).of_alarm rfl
  | close c => exact AlarmIn.perform hA h .close c
  | dispose c => exact AlarmIn.dispose hA h c
  | isSignalled c =>
    unfold Session.execute
    dsimp only
    split
    · exact h
    · exact h
  | info | debug => exact honCall fun _ => h
  | subscribe c =>
    refine honCall fun call => ?_
    split
    · exact h
    · exact h.of_alarm rfl
  | unsubscribe => exact h.of_alarm rfl
  | drop c =>
    have hdropped : AlarmIn A (s.update (·.drop c)).2.exchange := AlarmIn.perform hA h .drop c
    unfold Session.execute
    dsimp only
    split
    case h_1 _ heq | h_2 _ heq =>
      rw [heq] at hdropped
      exact hdropped

theorem alarmIn_step (hA : Trigger.IsStable A) (h : AlarmIn A s.exchange) (command : Command) :
    AlarmIn A (s.step command).2.exchange := by
  obtain ⟨feeds, hfeeds⟩ := exchange_collect (s.execute command).2
  have hexecuted := alarmIn_execute hA h command
  have hstep : (s.step command).2.exchange = (s.execute command).2.collect.2.exchange := rfl
  rw [hstep, hfeeds]
  exact hexecuted.of_alarm rfl

end Session

end Redial
