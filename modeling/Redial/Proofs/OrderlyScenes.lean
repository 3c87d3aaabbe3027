import Redial.Proofs.Scenes
import Redial.Proofs.RunsAsRaces
import Redial.Proofs.SettledSessions

/-!
# Orderly scenes

What holds at every step, however runs are nested: no call is run twice at the same time, the calls
that are run cannot be dropped, and so their outboxes stay open. Every verdict finds an empty
outbox, and no run ever tells that a delivery failed.
-/

namespace Redial

open StateTransition Relation

/-- The kinds of events that a run tells of by itself as long as its outbox takes every verdict. -/
def EventKind.IsOrdinary (kind : EventKind) : Prop :=
  kind ≠ .deliveryOverflow ∧ kind ≠ .handleDisposed

namespace Course

/-- As long as every verdict is taken at once, the course tells of ordinary events only. -/
def Smooth : Course → Prop
  | finished | panics _ => True
  | start next | askDisposed next => ∀ answer, (next answer).Smooth
  | report notice next => notice.kind.IsOrdinary ∧ next.Smooth
  | sleep _ next | await _ next | callback _ next => next.Smooth
  | invoke next => ∀ output, (next output).Smooth
  | dispatch next => ∀ output, (next output).Smooth
  | consult _ next => ∀ again, (next again).Smooth
  | readClock next => ∀ now, (next now).Smooth
  | push _ next => (next (.ok 1)).Smooth
  | pop next => ∀ verdict, (next verdict).Smooth

variable {plan : Plan} {next : Course}

lemma smooth_report {notice : Notice} (h : next.Smooth) (hoverflow : notice.kind ≠ .deliveryOverflow)
    (hdisposed : notice.kind ≠ .handleDisposed) : (report notice next).Smooth :=
  ⟨⟨hoverflow, hdisposed⟩, h⟩

lemma smooth_pauseUntil (h : next.Smooth) (deadline looks : Nat) :
    (pauseUntil deadline next looks).Smooth := by
  induction looks with
  | zero => exact h
  | succ looks ih =>
    intro disposed
    cases disposed with
    | true => exact h
    | false =>
      intro now
      dsimp only
      split
      · exact h
      · exact ih

lemma smooth_pause (h : next.Smooth) (delay : Duration) : (pause delay next).Smooth := by
  intro now
  dsimp only
  split
  · exact smooth_pauseUntil h _ _
  · trivial

lemma smooth_schedule {retry : Duration → Course} (h : ∀ delay, (retry delay).Smooth)
    (p : Progress) : (schedule plan p retry).Smooth := by
  unfold schedule
  split
  · trivial
  · exact smooth_report (h _) nofun nofun

lemma smooth_judgeFault {next : Bool → Course} (h : ∀ again, (next again).Smooth) (fault : Fault) :
    (judgeFault plan fault next).Smooth := by
  unfold judgeFault
  split
  · exact h _
  · exact h

lemma smooth_settle {retry : Progress → Duration → Course} {finish : Progress → Verdict → Course}
    (hretry : ∀ p delay, (retry p delay).Smooth) (hfinish : ∀ p verdict, (finish p verdict).Smooth)
    (p : Progress) (output : Output) : (settle plan p output retry finish).Smooth := by
  cases output with
  | ok result =>
    unfold settle
    dsimp only
    split
    · exact hfinish _ _
    · refine smooth_report ?_ nofun nofun
      split
      · exact smooth_schedule (hretry _) _
      · exact hfinish _ _
  | error fault =>
    refine smooth_report (smooth_judgeFault (fun again => ?_) fault) nofun nofun
    split
    · exact smooth_schedule (hretry _) _
    · exact hfinish _ _

lemma smooth_drain (p : Progress) (left : Nat) : (drain p left).Smooth := by
  induction left with
  | zero => trivial
  | succ left ih =>
    intro oldest
    cases oldest with
    | none => trivial
    | some verdict =>
      intro disposed
      cases disposed with
      | true => exact smooth_report ih nofun nofun
      | false => cases verdict <;> exact smooth_report ih nofun nofun

lemma smooth_deliver (p : Progress) (verdict : Verdict) : (deliver p verdict).Smooth := by
  intro disposed
  cases disposed with
  | true => exact smooth_report trivial nofun nofun
  | false => exact smooth_drain p 1

lemma smooth_blockingAttempts (plan : Plan) (left : Nat) (p : Progress) :
    (blockingAttempts plan left p).Smooth := by
  induction left generalizing p with
  | zero => trivial
  | succ left ih =>
    intro disposed
    cases disposed with
    | true => exact smooth_report trivial nofun nofun
    | false =>
      exact smooth_report
        (smooth_settle (fun q delay => smooth_pause (ih q) delay) smooth_deliver p.begin) nofun nofun

lemma smooth_asyncAttempts (plan : Plan) (left : Nat) (p : Progress) :
    (asyncAttempts plan left p).Smooth := by
  induction left generalizing p with
  | zero => trivial
  | succ left ih =>
    intro disposed
    cases disposed with
    | true => exact smooth_report trivial nofun nofun
    | false =>
      refine smooth_report (fun output => ?_) nofun nofun
      cases output with
      | none => exact smooth_report trivial nofun nofun
      | some output =>
        refine smooth_settle (fun q delay => ?_) smooth_deliver p.begin output
        split
        · exact ih q
        · exact ih q

theorem smooth_course (plan : Plan) (manner : Manner) : (plan.course manner).Smooth := by
  cases manner with
  | blocking =>
    intro won
    cases won with
    | false => trivial
    | true => exact smooth_blockingAttempts plan _ _
  | asynchronous =>
    intro won
    cases won with
    | false => trivial
    | true => exact smooth_asyncAttempts plan _ _

/-- How a run stands while its user code is at work. -/
structure Resumes (course : Course) : Prop where
  tidy : course.Tidy 0
  smooth : course.Smooth

end Course

namespace Exchange

variable {x y : Exchange} {c d : CallId} {plan : Plan} {W : List CallId}

/-- The calls in `W` are at work or given away, and their outboxes are open like those of the calls
that could be run. -/
structure Attended (W : List CallId) (x : Exchange) : Prop where
  away : ∀ d ∈ W, ∃ call, x.call? d = some call ∧ call.presence ≠ .here
  isOpen : ∀ d call, x.call? d = some call → call.presence = .here ∨ d ∈ W →
    call.outbox.isClosed = false

namespace Attended

lemma of_calls (h : x.Attended W) (hcalls : y.calls = x.calls) : y.Attended W := by
  refine ⟨fun d hd => ?_, fun d call hcall => ?_⟩
  · rw [call?_congr hcalls]
    exact h.away d hd
  · rw [call?_congr hcalls] at hcall
    exact h.isOpen d call hcall

/-- A change to one call. -/
lemma modify (h : x.Attended W) {f : Call → Call} {V : List CallId}
    (hother : ∀ d, d ≠ c → (d ∈ V ↔ d ∈ W))
    (haway : ∀ call, x.call? c = some call → c ∈ V → (f call).presence ≠ .here)
    (hknown : c ∈ V → c ∈ W ∨ ∃ call, x.call? c = some call)
    (hopen : ∀ call, x.call? c = some call → (f call).presence = .here ∨ c ∈ V →
      (f call).outbox.isClosed = false) : (x.modify c f).Attended V := by
  refine ⟨fun d hd => ?_, fun d call hcall hd => ?_⟩
  · by_cases hdc : d = c
    · subst hdc
      obtain ⟨call, hcall⟩ : ∃ call, x.call? d = some call := by
        rcases hknown hd with hW | hcall
        · obtain ⟨call, hcall, -⟩ := h.away d hW
          exact ⟨call, hcall⟩
        · exact hcall
      refine ⟨f call, ?_, haway call hcall hd⟩
      exact call?_modify_of_known hcall _
    · obtain ⟨call, hcall, hpresence⟩ := h.away d ((hother d hdc).mp hd)
      refine ⟨call, ?_, hpresence⟩
      rw [call?_modify_of_ne x f (Ne.symm hdc)]
      exact hcall
  · rcases call?_of_modify hcall with ⟨hcd, hsame⟩ | ⟨former, rfl, hformer, rfl⟩
    · refine h.isOpen d call hsame (hd.imp_right fun hd => ?_)
      exact (hother d (Ne.symm hcd)).mp hd
    · exact hopen former hformer hd

/-- A change that leaves the presence of a call and its outbox as they are. -/
lemma modify_same (h : x.Attended W) {f : Call → Call}
    (hpresence : ∀ call, x.call? c = some call → (f call).presence = call.presence)
    (hclosed : ∀ call, x.call? c = some call →
      (f call).outbox.isClosed = call.outbox.isClosed) : (x.modify c f).Attended W := by
  apply h.modify (fun _ _ => Iff.rfl)
  · intro call hcall hc
    obtain ⟨known, hknown, haway⟩ := h.away c hc
    rw [hcall] at hknown
    cases hknown
    rw [hpresence call hcall]
    exact haway
  · exact Or.inl
  · intro call hcall hc
    rw [hpresence call hcall] at hc
    rw [hclosed call hcall]
    exact h.isOpen c call hcall hc

lemma dispose (h : x.Attended W) (c : CallId) : (x.dispose c).2.Attended W := by
  rw [Exchange.dispose_eq_tell]
  split
  case h_1 => exact h
  case h_2 call hcall =>
    have hchanged : (x.modify c ({ · with handle := call.handle.dispose.2 })).Attended W :=
      h.modify_same (fun _ _ => rfl) fun _ _ => rfl
    dsimp only
    split
    · exact hchanged.of_calls (calls_tell _ _ _)
    · exact hchanged

end Attended

/-- The calls that are run cannot be dropped, so whatever user code does, their outboxes stay
open. -/
lemma isCarried_attended (W : List CallId) :
    IsCarried (fun _ => True) (fun _ => True) fun x y => x.Attended W → y.Attended W where
  same hcalls _ h := h.of_calls hcalls
  trans hxy hyz h := hyz (hxy h)
  note x entry _ h := h.of_calls rfl
  tell x c notice _ _ h := h.of_calls (calls_tell x c notice)
  start x c _ h := by
    unfold Exchange.start
    split
    · exact h
    · exact h.modify_same (fun _ _ => rfl) fun _ _ => rfl
  change x c f _ hf h :=
    h.modify_same (fun call hcall => (hf call hcall).presence) fun call hcall =>
      (hf call hcall).isClosed
  perform x deed c h := by
    rcases perform_cases x deed c with hsame | hdisposed | ⟨call, hcall, hhere, hdropped⟩
    · rw [hsame]
      exact h
    · rw [hdisposed]
      exact h.dispose c
    · have hc : c ∉ W := by
        intro hc
        obtain ⟨known, hknown, haway⟩ := h.away c hc
        rw [hcall] at hknown
        cases hknown
        exact haway hhere
      have hgone : (x.setPresence c .gone).Attended W :=
        h.modify (fun _ _ => Iff.rfl) (fun _ _ hin => absurd hin hc) (fun hin => absurd hin hc)
          fun _ _ hin => hin.elim nofun fun hin => absurd hin hc
      rw [hdropped]
      unfold release
      refine (hgone.dispose c).modify (fun _ _ => Iff.rfl) (fun _ _ hin => absurd hin hc)
        (fun hin => absurd hin hc) fun former hformer hin => ?_
      rcases hin with hhere | hin
      · rw [call?_dispose, if_pos rfl, setPresence, call?_modify_self, Option.map_map] at hformer
        obtain ⟨known, -, rfl⟩ := Option.map_eq_some_iff.mp hformer
        cases hhere
      · exact absurd hin hc

end Exchange

/-- The task leaves no verdict behind where user code could find it, and is not stuck. -/
def Task.Fits (x : Exchange) : Task → Prop
  | run c course => ∃ n, course.Tidy n ∧ course.Smooth ∧ Exchange.Quiet (fun _ => False) c n x
  | code _ _ _ sequel => (∀ value, (sequel.rest value).Resumes) ∧ x.Settled
  | ended _ how => how ≠ .error .stuck ∧ x.Settled

/-- What holds at every step. -/
structure Scene.Orderly (s : Scene) : Prop where
  nodup : s.workers.Nodup
  attended : s.exchange.Attended s.workers
  task : s.task.Fits s.exchange
  askers : ∀ asker ∈ s.askers, ∀ value, (asker.sequel.rest value).Resumes

namespace Exchange

variable {x y : Exchange} {c d : CallId} {plan : Plan} {W : List CallId} {n : Nat} {course : Course}

lemma fits_run (h : course.Resumes) (hx : x.Settled) : Task.Fits x (.run c course) :=
  ⟨0, h.tidy, h.smooth, hx.quiet c⟩

lemma fits_stepIntoBody {rest : Output → Course} (hrest : ∀ output, (rest output).Resumes)
    (hknown : ∃ call, x.call? c = some call) (hx : x.Settled) :
    (x.stepIntoBody c rest).1.Fits (x.stepIntoBody c rest).2 := by
  obtain ⟨call, hcall⟩ := hknown
  unfold stepIntoBody
  rw [hcall]
  have hcounted := (hx.quiet c).modify c (f := ({ · with bodyCalls := call.bodyCalls + 1 }))
    (fun _ => rfl) nofun
  exact ⟨hrest, (hcounted.note _).settled⟩

lemma fits_stepIntoPredicate {rest : Bool → Course} (hrest : ∀ again, (rest again).Resumes)
    (hknown : ∃ call, x.call? c = some call) (hx : x.Settled) (fault : Fault) :
    (x.stepIntoPredicate c fault rest).1.Fits (x.stepIntoPredicate c fault rest).2 := by
  obtain ⟨call, hcall⟩ := hknown
  unfold stepIntoPredicate
  rw [hcall]
  dsimp only
  split
  · exact fits_run (hrest true) hx
  · have hcounted := (hx.quiet c).modify c
      (f := ({ · with predicateCalls := call.predicateCalls + 1 })) (fun _ => rfl) nofun
    exact ⟨hrest, hcounted.settled⟩

lemma fits_stepIntoCallback {rest : Course} (hrest : rest.Resumes) (hx : x.Settled)
    (verdict : Verdict) :
    (x.stepIntoCallback c verdict rest).1.Fits (x.stepIntoCallback c verdict rest).2 := by
  unfold stepIntoCallback
  split
  · split
    · exact fits_run hrest hx
    · have hused := (hx.quiet c).modify c (f := ({ · with onSuccess := none })) (fun _ => rfl) nofun
      exact ⟨fun _ => hrest, (hused.note _).settled⟩
  · split
    · exact fits_run hrest hx
    · have hused := (hx.quiet c).modify c (f := ({ · with onFailure := none })) (fun _ => rfl) nofun
      exact ⟨fun _ => hrest, (hused.note _).settled⟩
  · exact fits_run hrest hx

/-- An empty outbox that is open takes a verdict, and then holds that one. -/
lemma pushVerdict_of_isOpen {call : Call} (hcall : x.call? c = some call)
    (hopen : call.outbox.isClosed = false) (hempty : call.outbox.queue = []) (verdict : Verdict) :
    x.pushVerdict c verdict =
      (.ok (.ok 1), x.modify c ({ · with outbox := call.outbox.append verdict })) := by
  unfold pushVerdict
  rw [hcall]
  dsimp only
  rw [Delivery.Outbox.push_of_empty hopen hempty, ← Delivery.Outbox.size_append_of_empty hempty]

/-- A step of a run on its own course. -/
theorem fits_stepRun (htidy : course.Tidy n) (hsmooth : course.Smooth)
    (hx : Quiet (fun _ => False) c n x) (hattended : x.Attended W) (hc : c ∈ W) :
    (x.stepRun c course).1.Fits (x.stepRun c course).2 := by
  obtain ⟨call, hcall, -⟩ := hattended.away c hc
  have hopen := hattended.isOpen c call hcall (Or.inr hc)
  cases course with
  | finished =>
    obtain rfl : n = 0 := htidy
    exact ⟨nofun, hx.settled⟩
  | panics =>
    obtain rfl : n = 0 := htidy
    exact ⟨nofun, hx.settled⟩
  | start next => exact ⟨n, htidy _, hsmooth _, hx.start⟩
  | askDisposed next => exact ⟨n, htidy _, hsmooth _, hx⟩
  | report notice next => exact ⟨n, htidy, hsmooth.2, hx.tell c notice⟩
  | invoke next =>
    obtain ⟨rfl, htidy⟩ := htidy
    exact fits_stepIntoBody (fun output => ⟨htidy output, hsmooth output⟩) ⟨call, hcall⟩ hx.settled
  | dispatch next =>
    obtain ⟨rfl, htidy⟩ := htidy
    rw [stepRun]
    split
    · exact fits_stepIntoBody (fun output => ⟨htidy _, hsmooth _⟩) ⟨call, hcall⟩ hx.settled
    · exact fits_run ⟨htidy none, hsmooth none⟩ hx.settled
  | consult fault next =>
    obtain ⟨rfl, htidy⟩ := htidy
    exact fits_stepIntoPredicate (fun again => ⟨htidy again, hsmooth again⟩) ⟨call, hcall⟩
      hx.settled fault
  | readClock next => exact ⟨n, htidy _, hsmooth _, hx⟩
  | sleep nanos next => exact ⟨n, htidy, hsmooth, hx.elapse nanos⟩
  | await delay next => exact ⟨n, htidy, hsmooth, (wait_calm hx c delay).1.note _⟩
  | push verdict next =>
    obtain ⟨rfl, htidy, -⟩ := htidy
    have hempty : call.outbox.queue = [] := hx.settled c call hcall
    have hone := Delivery.Outbox.size_append_of_empty hempty verdict
    rw [stepRun, pushVerdict_of_isOpen hcall hopen hempty]
    exact ⟨1, htidy, hsmooth, hx.setOutbox hone⟩
  | pop next =>
    have hpopped := hx.popVerdict (by rw [hcall]; rfl)
    rw [stepRun]
    rcases hpopped with ⟨rfl, hnone, hquiet⟩ | ⟨m, verdict, rfl, hsome, hquiet⟩
    · rw [hnone]
      exact ⟨0, htidy, hsmooth none, hquiet⟩
    · rw [hsome]
      exact ⟨m, htidy verdict, hsmooth _, hquiet⟩
  | callback verdict next =>
    obtain ⟨rfl, htidy⟩ := htidy
    exact fits_stepIntoCallback ⟨htidy, hsmooth⟩ hx.settled verdict

end Exchange

namespace Scene

open Exchange

variable {s t : Scene} {c d : CallId} {plan : Plan} {manner : Manner} {x : Exchange}

/-- A step that enters no run and ends none. -/
lemma Orderly.within (hs : s.Orderly) (haskers : t.askers = s.askers)
    (hcall : t.task.call = s.task.call)
    (hattended : s.exchange.Attended s.workers → t.exchange.Attended s.workers)
    (htask : t.task.Fits t.exchange) : t.Orderly := by
  have hworkers : t.workers = s.workers := by
    unfold workers
    rw [haskers, hcall]
  refine ⟨?_, ?_, htask, ?_⟩
  · rw [hworkers]
    exact hs.nodup
  · rw [hworkers]
    exact hattended hs.attended
  · rw [haskers]
    exact hs.askers

/-- A call that could be run begins to run, so it is not one of those that are run already. -/
lemma Orderly.enter (hs : s.Orderly) (hrunnable : s.exchange.runnable c = .ok plan)
    (hx : s.exchange.Settled) {asker : Asker} (hcall : asker.call = s.task.call)
    (hasker : ∀ value, (asker.sequel.rest value).Resumes) :
    Orderly ⟨.run c (.blocking plan), asker :: s.askers, s.exchange.setPresence c .busy⟩ := by
  obtain ⟨call, hknown, hhere, -⟩ := exists_of_runnable hrunnable
  have hworkers : workers ⟨.run c (.blocking plan), asker :: s.askers,
      s.exchange.setPresence c .busy⟩ = c :: s.workers := by
    unfold workers
    rw [List.map_cons, hcall]
    rfl
  -- The calls that are run are away, and this one is here.
  have hnew : c ∉ s.workers := by
    intro hc
    obtain ⟨known, hsame, haway⟩ := hs.attended.away c hc
    rw [hknown] at hsame
    cases hsame
    exact haway hhere
  refine ⟨?_, ?_, ?_, ?_⟩
  · rw [hworkers]
    exact List.nodup_cons.mpr ⟨hnew, hs.nodup⟩
  · rw [hworkers]
    apply hs.attended.modify
    · intro d hdc
      simp [hdc]
    · exact fun _ _ _ => nofun
    · exact fun _ => Or.inr ⟨call, hknown⟩
    · intro former hformer _
      exact hs.attended.isOpen c former hformer (Or.inl (by
        rw [hknown] at hformer
        cases hformer
        exact hhere))
  · exact ⟨0, Course.tidy_course plan .blocking, Course.smooth_course plan .blocking,
      (setPresence_calm (hx.quiet c) not_false .busy).1⟩
  · intro other hother
    rcases List.mem_cons.mp hother with rfl | hother
    · exact hasker
    · exact hs.askers other hother

/-- A run inside another one is over, and its call can be run again. -/
lemma Orderly.leave {how : Except Halt Unit} {asker : Asker} {askers : List Asker}
    (hs : Orderly ⟨.ended c how, asker :: askers, x⟩) :
    Orderly ⟨(asker.resume c how x).1, askers, (asker.resume c how x).2⟩ := by
  obtain ⟨hnodup, hattended, ⟨hhow, hsettled⟩, haskers⟩ := hs
  have hback : (x.setPresence c .here).Settled :=
    (setPresence_calm (hsettled.quiet c) not_false .here).1.settled
  have hc : c ∉ asker.call :: askers.map Asker.call := (List.nodup_cons.mp hnodup).1
  rw [Asker.resume_of_ne asker hhow]
  refine ⟨(List.nodup_cons.mp hnodup).2, ?_, ⟨haskers asker List.mem_cons_self, ?_⟩,
    fun other hother => haskers other (List.mem_cons_of_mem _ hother)⟩
  · have hreturned : (x.setPresence c .here).Attended (asker.call :: askers.map Asker.call) := by
      apply hattended.modify
      · intro d hdc
        show _ ↔ d ∈ c :: asker.call :: askers.map Asker.call
        rw [List.mem_cons (a := d) (b := c)]
        simp [hdc]
      · exact fun _ _ hin => absurd hin hc
      · exact fun hin => absurd hin hc
      · intro former hformer _
        exact hattended.isOpen c former hformer (Or.inr List.mem_cons_self)
    exact hreturned.of_calls rfl
  · intro d call hcall
    exact hback d call hcall

theorem Orderly.step (hs : s.Orderly) (hstep : s.step = some t) : t.Orderly := by
  obtain ⟨task, askers, x⟩ := s
  have hcarried := isCarried_attended (workers ⟨task, askers, x⟩)
  cases task with
  | run c course =>
    cases hstep
    obtain ⟨n, htidy, hsmooth, hquiet⟩ := hs.task
    exact hs.within rfl (call_stepRun x c course)
      (hcarried.stepRun trivial x course fun _ _ _ => trivial)
      (fits_stepRun htidy hsmooth hquiet hs.attended List.mem_cons_self)
  | code role c script sequel =>
    cases hstep
    obtain ⟨hrest, hsettled⟩ := hs.task
    have hnoted (y : Exchange) (hy : y.Settled) (entry : Entry) : (y.note entry).Settled :=
      hy.of_calls rfl
    cases script with
    | done value =>
      refine hs.within rfl rfl (hcarried.noteAny sequel value x) (fits_run (hrest value) ?_)
      rw [stepCode]
      cases sequel.entry value with
      | none => exact hsettled
      | some entry => exact hnoted x hsettled entry
    | panic text =>
      have hpanic : (.error (.panic text) : Except Halt Unit) ≠ .error .stuck := by
        intro heq
        cases heq
      exact hs.within rfl rfl id ⟨hpanic, hsettled⟩
    | act deed target next =>
      have hacted := (performFor_calm (hsettled.quiet c) deed target).1.settled
      refine hs.within rfl rfl ?_ ⟨hrest, hnoted _ hacted _⟩
      exact hcarried.trans (hcarried.performFor x deed target) (hcarried.note _ _ rfl)
    | run target next =>
      rw [stepCode]
      dsimp only
      split
      · cases hrunnable : x.runnable target with
        | error reply =>
          exact hs.within rfl rfl (hcarried.note _ _ rfl) ⟨hrest, hnoted x hsettled _⟩
        | ok plan => exact hs.enter hrunnable hsettled rfl hrest
      · exact hs.within rfl rfl (hcarried.note _ _ rfl) ⟨hrest, hnoted x hsettled _⟩
  | ended c how =>
    cases askers with
    | nil => cases hstep
    | cons asker askers =>
      cases hstep
      exact hs.leave

theorem Orderly.reaches (hs : s.Orderly) (h : Reaches Scene.step s t) : t.Orderly := by
  induction h with
  | refl => exact hs
  | tail _ hstep ih => exact ih.step hstep

/-- A run tells of ordinary events only. -/
lemma Orderly.isOrdinary (hs : s.Orderly) {notice : Notice} {next : Course}
    (htask : s.task = .run c (.report notice next)) : notice.kind.IsOrdinary := by
  have hfits := hs.task
  rw [htask] at hfits
  obtain ⟨n, -, hsmooth, -⟩ := hfits
  exact hsmooth.1

section Carried

variable {P Q : CallId → Prop} {R : Exchange → Exchange → Prop}
  (h : IsCarried EventKind.IsOrdinary P R)
  (hmark : ∀ x c presence, Q c → presence ≠ .gone → R x (x.setPresence c presence))
include h hmark

/-- Runs act for calls in `P`. The outermost of them is marked before and after; the others, which
are for calls in `Q`, are marked by steps. -/
lemma Orderly.carried_step (hs : s.Orderly) (hworkers : ∀ d ∈ s.workers, P d)
    (hnested : ∀ d ∈ s.workers.dropLast, Q d)
    (henter : ∀ d plan, s.exchange.runnable d = .ok plan → P d ∧ Q d) (hstep : s.step = some t) :
    R s.exchange t.exchange ∧ (∀ d ∈ t.workers, P d) ∧ ∀ d ∈ t.workers.dropLast, Q d := by
  rcases step_cases h (hworkers _ List.mem_cons_self) (fun _ _ _ htask => hs.isOrdinary htask)
    hstep with ⟨hsame, -, hcarried⟩ | ⟨target, plan, asker, hrunnable, hmore, rfl⟩ |
    ⟨c, how, asker, askers, hless, -, rfl⟩
  · rw [hsame]
    exact ⟨hcarried, hworkers, hnested⟩
  · obtain ⟨hP, hQ⟩ := henter target plan hrunnable
    rw [hmore, List.dropLast_cons_of_ne_nil s.workers_ne_nil]
    refine ⟨hmark _ target .busy hQ nofun, fun d hd => ?_, fun d hd => ?_⟩
    · rcases List.mem_cons.mp hd with rfl | hd
      · exact hP
      · exact hworkers d hd
    · rcases List.mem_cons.mp hd with rfl | hd
      · exact hQ
      · exact hnested d hd
  · rw [hless, List.dropLast_cons_of_ne_nil (workers_ne_nil _)] at hnested
    rw [hless] at hworkers
    have hback := hmark s.exchange c .here (hnested c List.mem_cons_self) nofun
    refine ⟨?_, fun d hd => hworkers d (List.mem_cons_of_mem _ hd),
      fun d hd => hnested d (List.mem_cons_of_mem _ hd)⟩
    unfold Asker.resume
    split
    · exact hback
    · exact h.trans hback (h.note _ _ rfl)

/-- What every step of a run preserves holds wherever steps lead, if no other calls can be entered
on the way. -/
theorem Orderly.carried (hs : s.Orderly) (hworkers : ∀ d ∈ s.workers, P d)
    (hnested : ∀ d ∈ s.workers.dropLast, Q d)
    (henter : ∀ x d plan, R s.exchange x → x.runnable d = .ok plan → P d ∧ Q d)
    (hreaches : Reaches Scene.step s t) :
    R s.exchange t.exchange ∧ (∀ d ∈ t.workers, P d) ∧ ∀ d ∈ t.workers.dropLast, Q d := by
  induction hreaches with
  | refl => exact ⟨h.refl _, hworkers, hnested⟩
  | tail hpast hstep ih =>
    obtain ⟨hcarried, hacting, hmarked⟩ := ih
    obtain ⟨hnext, hworkers, hnested⟩ := (hs.reaches hpast).carried_step h hmark hacting hmarked
      (fun d plan => henter _ d plan hcarried) hstep
    exact ⟨h.trans hcarried hnext, hworkers, hnested⟩

end Carried

end Scene

namespace Exchange

variable {x y : Exchange} {c d : CallId} {plan : Plan} {manner : Manner} {how : Except Halt Unit}

/-- Between runs every outbox is empty, and that of a call which could be run is open. -/
structure Ready (x : Exchange) : Prop where
  settled : x.Settled
  attended : x.Attended []

namespace Ready

lemma of_calls (h : x.Ready) (hcalls : y.calls = x.calls) : y.Ready :=
  ⟨h.settled.of_calls hcalls, h.attended.of_calls hcalls⟩

lemma perform (h : x.Ready) (deed : Deed) (c : CallId) : (x.perform deed c).2.Ready :=
  ⟨h.settled.perform deed c, (isCarried_attended []).perform x deed c h.attended⟩

theorem opening (h : x.Ready) (hrunnable : x.runnable c = .ok plan) (manner : Manner) :
    (x.opening manner c plan).Orderly := by
  obtain ⟨call, hknown, hhere, -⟩ := exists_of_runnable hrunnable
  have haway : manner.presence ≠ .here := by
    cases manner with
    | blocking | asynchronous => nofun
  refine ⟨List.nodup_singleton c, ?_, ?_, nofun⟩
  · apply h.attended.modify
    · intro d hdc
      show d ∈ [c] ↔ _
      simp [hdc]
    · exact fun _ _ _ => haway
    · exact fun _ => Or.inr ⟨call, hknown⟩
    · intro former hformer _
      rw [hknown] at hformer
      cases hformer
      exact h.attended.isOpen c call hknown (Or.inl hhere)
  · exact ⟨0, Course.tidy_course plan manner, Course.smooth_course plan manner,
      (setPresence_calm (h.settled.quiet c) not_false manner.presence).1⟩

/-- After a blocking run its call can be run again. -/
lemma of_over (h : Scene.Orderly ⟨.ended c how, [], y⟩) : (y.setPresence c .here).Ready := by
  obtain ⟨-, hattended, ⟨-, hsettled⟩, -⟩ := h
  have halone : y.Attended [c] := hattended
  refine ⟨(setPresence_calm (hsettled.quiet c) not_false .here).1.settled, ?_⟩
  apply halone.modify
  · intro d hdc
    simp [hdc]
  · exact fun _ _ hnone => absurd hnone List.not_mem_nil
  · exact fun hnone => absurd hnone List.not_mem_nil
  · intro former hformer _
    exact halone.isOpen c former hformer (Or.inr List.mem_cons_self)

/-- After an asynchronous run its call is released. -/
lemma of_over_release (h : Scene.Orderly ⟨.ended c how, [], y⟩) : (y.release c).Ready := by
  obtain ⟨-, hattended, ⟨-, hsettled⟩, -⟩ := h
  refine ⟨((hsettled.quiet c).release c).settled, ?_⟩
  have hdisposed : (y.dispose c).2.Attended [c] := Attended.dispose hattended c
  apply hdisposed.modify
  · intro d hdc
    simp [hdc]
  · exact fun _ _ hnone => absurd hnone List.not_mem_nil
  · exact fun hnone => absurd hnone List.not_mem_nil
  · intro former hformer hhere
    obtain ⟨known, hknown, haway⟩ := hdisposed.away c List.mem_cons_self
    rw [hformer] at hknown
    cases hknown
    exact absurd (hhere.resolve_right nofun) haway

theorem run (h : x.Ready) (c : CallId) : (x.run c).2.Ready := by
  cases hrunnable : x.runnable c with
  | error reply =>
    rw [run_of_error hrunnable]
    exact h
  | ok plan =>
    obtain ⟨how, y, hran, hleads⟩ := leadsTo_run hrunnable
    rw [hran]
    exact of_over ((h.opening hrunnable .blocking).reaches hleads.reaches)

theorem runAsync (h : x.Ready) (c : CallId) : (x.runAsync c).2.Ready := by
  cases hrunnable : x.runnable c with
  | error reply =>
    rw [runAsync_of_error hrunnable]
    exact h
  | ok plan =>
    obtain ⟨how, y, hran, hleads⟩ := leadsTo_runAsync hrunnable
    rw [hran]
    exact of_over_release ((h.opening hrunnable .asynchronous).reaches hleads.reaches)

section Carried

variable {P Q : CallId → Prop} {R : Exchange → Exchange → Prop}
  (h : IsCarried EventKind.IsOrdinary P R)
  (hmark : ∀ x c presence, Q c → presence ≠ .gone → R x (x.setPresence c presence))
  (hx : x.Ready) (henter : ∀ y d plan, R x y → y.runnable d = .ok plan → P d ∧ Q d)
include h hmark hx henter

/-- What every step of a run preserves holds at every step of a whole run. -/
theorem opening_carried (hrunnable : x.runnable c = .ok plan)
    (hopened : R x (x.setPresence c manner.presence)) {t : Scene}
    (hreaches : Reaches Scene.step (x.opening manner c plan) t) : R x t.exchange := by
  have hworker : ∀ d ∈ (x.opening manner c plan).workers, P d := by
    intro d hd
    obtain rfl := List.mem_singleton.mp hd
    exact (henter x d plan (h.refl x) hrunnable).1
  have hcarried := (hx.opening hrunnable manner).carried h hmark hworker
    (fun d hnone => absurd hnone List.not_mem_nil)
    (fun y d plan hy => henter y d plan (h.trans hopened hy)) hreaches
  exact h.trans hopened hcarried.1

theorem run_carried (c : CallId) : R x (x.run c).2 := by
  cases hrunnable : x.runnable c with
  | error reply =>
    rw [run_of_error hrunnable]
    exact h.refl x
  | ok plan =>
    have hQ := (henter x c plan (h.refl x) hrunnable).2
    obtain ⟨how, y, hran, hleads⟩ := leadsTo_run hrunnable
    have hbusy : R x (x.setPresence c (Manner.presence .blocking)) := hmark x c .busy hQ nofun
    have hover := opening_carried h hmark hx henter hrunnable hbusy hleads.reaches
    rw [hran]
    exact h.trans hover (hmark y c .here hQ nofun)

theorem runAsync_carried (hrunnable : x.runnable c = .ok plan)
    (hgone : R x (x.setPresence c .gone)) (hrelease : ∀ y, R y (y.release c)) :
    R x (x.runAsync c).2 := by
  obtain ⟨how, y, hran, hleads⟩ := leadsTo_runAsync hrunnable
  have haway : R x (x.setPresence c (Manner.presence .asynchronous)) := hgone
  have hover := opening_carried h hmark hx henter hrunnable haway hleads.reaches
  rw [hran]
  exact h.trans hover (hrelease y)

end Carried

lemma addPlan (h : x.Ready) (plan : Plan) (listed : Bool) : (x.addPlan plan listed).Ready := by
  have hsettled : x.Every fun call => call.outbox.queue = [] := h.settled
  have hopen : x.Every fun call => call.presence = .here → call.outbox.isClosed = false :=
    fun c call hcall hhere => h.attended.isOpen c call hcall (Or.inl hhere)
  have hstill := hopen.addPlan (fun _ _ _ _ => rfl) plan listed
  refine ⟨hsettled.addPlan (fun _ _ _ => rfl) plan listed, nofun, fun c call hcall hc => ?_⟩
  exact hstill c call hcall (hc.resolve_right List.not_mem_nil)

end Ready

/-- What every step of a run preserves, for whatever calls, holds after any operation of a session. -/
lemma IsCarried.isKept {R : Exchange → Exchange → Prop}
    (h : IsCarried EventKind.IsOrdinary (fun _ => True) R)
    (hmark : ∀ x c presence, R x (x.setPresence c presence))
    (hrelease : ∀ x c, R x (x.release c)) : IsKept fun x y => x.Ready → y.Ready ∧ R x y where
  same hcalls hjournal hx := ⟨hx.of_calls hcalls, h.same hcalls hjournal⟩
  trans hxy hyz hx := ⟨(hyz (hxy hx).1).1, h.trans (hxy hx).2 (hyz (hxy hx).1).2⟩
  perform x deed d hx := ⟨hx.perform deed d, h.perform x deed d⟩
  run x d hx := by
    refine ⟨hx.run d, hx.run_carried h (Q := fun _ => True) (fun x c presence _ _ => ?_) ?_ d⟩
    · exact hmark x c presence
    · exact fun _ _ _ _ _ => ⟨trivial, trivial⟩
  runAsync x d hx := by
    refine ⟨hx.runAsync d, ?_⟩
    cases hrunnable : x.runnable d with
    | error reply =>
      rw [runAsync_of_error hrunnable]
      exact h.refl x
    | ok plan =>
      refine hx.runAsync_carried h (Q := fun _ => True) (fun x c presence _ _ => ?_) ?_ hrunnable
        (hmark x d .gone) fun y => hrelease y d
      · exact hmark x c presence
      · exact fun _ _ _ _ _ => ⟨trivial, trivial⟩

end Exchange

namespace Session

open Exchange

/-- Each operation of a session leaves the calls ready to be run. -/
lemma isKept_ready : IsKept fun x y => x.Ready → y.Ready where
  same hcalls _ h := h.of_calls hcalls
  trans hxy hyz h := hyz (hxy h)
  perform _ deed c h := h.perform deed c
  run _ c h := h.run c
  runAsync _ c h := h.runAsync c

theorem ready_openWith (capacities : List Nat) (drafts : List Draft) (usual : Delivery.Settings)
    (draws : Nat → Nat → Nat) (quiet : Bool) :
    (openWith capacities drafts usual draws quiet).2.exchange.Ready := by
  have hnew : (openWith capacities drafts usual draws quiet).2.exchange.Every fun call =>
      call.outbox.isClosed = false :=
    (opened_openWith capacities drafts usual draws quiet).2 _ fun _ _ _ => rfl
  exact ⟨settled_openWith capacities drafts usual draws quiet, nofun,
    fun c call hcall _ => hnew c call hcall⟩

theorem ready_steps {s : Session} (h : s.exchange.Ready) (commands : List Command) :
    (s.steps commands).2.exchange.Ready :=
  kept_steps isKept_ready s commands h

end Session

end Redial
