import Mathlib.Computability.StateTransition
import Redial.Proofs.Race
import Redial.Proofs.ExchangeSteps

/-!
# Runs in single steps

What is being done on an exchange at the moment, and the user code that waits for it: a machine that
makes one step after another, in whatever way runs, user code and further runs are nested. Nothing
bounds the depth of the nesting here. That it ends all the same, and where the recursion on the
depth says it does, is because every nested run takes away one more call that could be run.
-/

namespace Redial

open StateTransition Relation

/-- The entry tells of an event. -/
def Entry.isTold : Entry → Bool
  | told _ _ _ => true
  | _ => false

/-- How a run goes on with the value of user code, and what is noted of the value. -/
structure Sequel (α : Type) where
  rest : α → Course
  entry : α → Option Entry := fun _ => none
  untold : ∀ value, ∀ noted ∈ entry value, noted.isTold = false := by
    intro _ _ hnone
    cases hnone

/-- The answer of a predicate is noted when it is known. -/
def Sequel.ofPredicate (c : CallId) (fault : Fault) (rest : Bool → Course) : Sequel Bool where
  rest := rest
  entry answer := some (.consulted c fault answer)
  untold := by
    rintro answer _ ⟨⟩
    rfl

inductive Task : Type 1 where
  | run (c : CallId) (course : Course)
  /-- User code in the run of call `c`. -/
  | code {α : Type} (role : Role) (c : CallId) (script : Script α) (sequel : Sequel α)
  | ended (c : CallId) (how : Except Halt Unit)

/-- User code of a call that waits for the end of a run it has asked for. -/
structure Asker : Type 1 where
  {α : Type}
  role : Role
  call : CallId
  next : RunReply → Script α
  sequel : Sequel α

/-- What is being done on an exchange. The askers wait for one another, the latest first. -/
structure Scene : Type 1 where
  task : Task
  askers : List Asker := []
  exchange : Exchange

/-- The call whose run the task belongs to. -/
def Task.call : Task → CallId
  | run c _ | code _ c _ _ | ended c _ => c

namespace Exchange

def noteAny (x : Exchange) : Option Entry → Exchange
  | none => x
  | some entry => x.note entry

/-- Call `c` begins to invoke its body. -/
def stepIntoBody (x : Exchange) (c : CallId) (rest : Output → Course) : Task × Exchange :=
  match x.call? c with
  | none => (.ended c (.error .stuck), x)
  | some call =>
    let n := call.bodyCalls + 1
    (.code .body c (call.plan.body n) { rest },
      (x.modify c ({ · with bodyCalls := n })).note (.invoked c n))

def stepIntoPredicate (x : Exchange) (c : CallId) (fault : Fault) (rest : Bool → Course) :
    Task × Exchange :=
  match x.call? c with
  | none => (.ended c (.error .stuck), x)
  | some call =>
    match call.plan.rule.predicate with
    | none => (.run c (rest true), x)
    | some predicate =>
      let n := call.predicateCalls + 1
      (.code .predicate c (predicate n fault) (.ofPredicate c fault rest),
        x.modify c ({ · with predicateCalls := n }))

def stepIntoCallback (x : Exchange) (c : CallId) (verdict : Verdict) (rest : Course) :
    Task × Exchange :=
  match x.call? c, verdict with
  | some call, .success result =>
    match call.onSuccess with
    | none => (.run c rest, x)
    | some callback =>
      (.code .onSuccess c (callback result) { rest := fun _ => rest },
        (x.modify c ({ · with onSuccess := none })).note (.delivered c verdict))
  | some call, .failure fault =>
    match call.onFailure with
    | none => (.run c rest, x)
    | some callback =>
      (.code .onFailure c (callback fault) { rest := fun _ => rest },
        (x.modify c ({ · with onFailure := none })).note (.delivered c verdict))
  | none, _ => (.run c rest, x)

/-- The next step of a run. -/
def stepRun (x : Exchange) (c : CallId) : Course → Task × Exchange
  | .finished => (.ended c (.ok ()), x)
  | .panics text => (.ended c (.error (.panic text)), x)
  | .start next => (.run c (next (x.start c).1), (x.start c).2)
  | .askDisposed next => (.run c (next (x.isDisposed c)), x)
  | .report notice next => (.run c next, x.tell c notice)
  | .invoke next => x.stepIntoBody c next
  | .dispatch next =>
    if x.staffed then x.stepIntoBody c fun output => next (some output) else (.run c (next none), x)
  | .consult fault next => x.stepIntoPredicate c fault next
  | .readClock next => (.run c (next x.clock), x)
  | .sleep nanos next => (.run c next, x.elapse nanos)
  | .await delay next => (.run c next, (x.wait c delay).note (.waited c delay))
  | .push verdict next =>
    match x.pushVerdict c verdict with
    | (.ok answer, x) => (.run c (next answer), x)
    | (.error halt, x) => (.ended c (.error halt), x)
  | .pop next => (.run c (next (x.popVerdict c).1), (x.popVerdict c).2)
  | .callback verdict next => x.stepIntoCallback c verdict next

end Exchange

/-- The asker goes on after the run of call `c` that it has asked for. If that one waits in vain, so
does the asker. -/
def Asker.resume (asker : Asker) (c : CallId) (how : Except Halt Unit) (x : Exchange) :
    Task × Exchange :=
  match how with
  | .error .stuck => (.ended asker.call (.error .stuck), x.setPresence c .here)
  | how =>
    (.code asker.role asker.call (asker.next (.ended how)) asker.sequel,
      (x.setPresence c .here).note (.nested asker.role asker.call c (.ended how)))

lemma Asker.call_resume (asker : Asker) (c : CallId) (how : Except Halt Unit) (x : Exchange) :
    (asker.resume c how x).1.call = asker.call := by
  unfold resume
  split <;> rfl

lemma Asker.resume_of_ne {how : Except Halt Unit} (asker : Asker) (hhow : how ≠ .error .stuck)
    (c : CallId) (x : Exchange) : asker.resume c how x =
      (.code asker.role asker.call (asker.next (.ended how)) asker.sequel,
        (x.setPresence c .here).note (.nested asker.role asker.call c (.ended how))) := by
  unfold resume
  split
  · exact absurd rfl hhow
  · rfl

namespace Scene

/-- The next step of user code. -/
def stepCode {α : Type} (role : Role) (c : CallId) (sequel : Sequel α) (askers : List Asker)
    (x : Exchange) : Script α → Scene
  | .done value => ⟨.run c (sequel.rest value), askers, x.noteAny (sequel.entry value)⟩
  | .panic text => ⟨.ended c (.error (.panic text)), askers, x⟩
  | .act deed target next =>
    let (answer, x) := x.performFor deed target
    ⟨.code role c (next answer) sequel, askers, x.note (.acted role c deed target answer)⟩
  | .run target next =>
    let refuse (reply : RunReply) : Scene :=
      ⟨.code role c (next reply) sequel, askers, x.note (.nested role c target reply)⟩
    if x.reaches target then
      match x.runnable target with
      | .error reply => refuse reply
      | .ok plan =>
        ⟨.run target (.blocking plan), ⟨role, c, next, sequel⟩ :: askers,
          x.setPresence target .busy⟩
    else refuse .absent

/-- The next step, unless the outermost run is over. -/
def step (s : Scene) : Option Scene :=
  match s.task with
  | .run c course =>
    let (task, x) := s.exchange.stepRun c course
    some ⟨task, s.askers, x⟩
  | .code role c script sequel => some (stepCode role c sequel s.askers s.exchange script)
  | .ended c how =>
    match s.askers with
    | [] => none
    | asker :: askers =>
      let (task, x) := asker.resume c how s.exchange
      some ⟨task, askers, x⟩

end Scene

/-- The calls differ at most in their counters, their callbacks and what their outboxes hold. -/
structure Call.Resembles (after before : Call) : Prop where
  plan : after.plan = before.plan
  feed : after.feed = before.feed
  handle : after.handle = before.handle
  presence : after.presence = before.presence
  isClosed : after.outbox.isClosed = before.outbox.isClosed

lemma Presence.busy_ne_here : busy ≠ here := nofun

/-- How a call is marked while it runs: it is at work or given away. -/
def Manner.presence : Manner → Presence
  | blocking => .busy
  | asynchronous => .gone

/-- What remains to be done when the run of a call is over. -/
def Manner.close (manner : Manner) (x : Exchange) (c : CallId) : Exchange :=
  match manner with
  | blocking => x.setPresence c .here
  | asynchronous => x.release c

/-- A run of a call is about to begin. -/
def Exchange.opening (x : Exchange) (manner : Manner) (c : CallId) (plan : Plan) : Scene :=
  ⟨.run c (plan.course manner), [], x.setPresence c manner.presence⟩

namespace Exchange

variable {x y : Exchange} {c d : CallId} {plan : Plan} {nesting : Nesting}

/-- The relation holds wherever a step of a run leads that is made for a call in `P` and tells only
of kinds in `K`. -/
structure IsCarried (K : EventKind → Prop) (P : CallId → Prop)
    (R : Exchange → Exchange → Prop) : Prop where
  /-- The calls and the journal stay as they are. -/
  same : ∀ {x y : Exchange}, y.calls = x.calls → y.journal = x.journal → R x y
  trans : ∀ {x y z : Exchange}, R x y → R y z → R x z
  note : ∀ (x : Exchange) (entry : Entry), entry.isTold = false → R x (x.note entry)
  tell : ∀ (x : Exchange) (c : CallId) (notice : Notice), P c → K notice.kind → R x (x.tell c notice)
  start : ∀ (x : Exchange) (c : CallId), P c → R x (x.start c).2
  change : ∀ (x : Exchange) (c : CallId) (f : Call → Call), P c →
    (∀ call, x.call? c = some call → (f call).Resembles call) → R x (x.modify c f)
  perform : ∀ (x : Exchange) (deed : Deed) (c : CallId), R x (x.perform deed c).2

namespace IsCarried

variable {K : EventKind → Prop} {P : CallId → Prop} {R : Exchange → Exchange → Prop}
  (h : IsCarried K P R)
include h

lemma refl (x : Exchange) : R x x := h.same rfl rfl

lemma ring (x : Exchange) (alarm : Alarm) : R x (x.ring alarm) :=
  h.trans (h.perform x .dispose alarm.target) (h.same rfl rfl)

lemma elapse (x : Exchange) (nanos : Nat) : R x (x.elapse nanos) := by
  have hlater : R x { x with clock := x.clock + nanos } := h.same rfl rfl
  unfold Exchange.elapse
  dsimp only
  split
  · split
    · exact h.trans hlater (h.ring _ _)
    · exact hlater
  · exact hlater

lemma wait (x : Exchange) (c : CallId) (delay : Duration) : R x (x.wait c delay) := by
  have hset (y : Exchange) (timer : Nat) : R y { y with timer } := h.same rfl rfl
  unfold Exchange.wait
  split
  · exact h.refl x
  · dsimp only
    split
    · split
      · split
        · exact h.trans (hset _ _) (h.ring _ _)
        · exact h.trans (h.trans (hset _ _) (h.ring _ _)) (hset _ _)
      · exact hset _ _
    · exact hset _ _

lemma performFor (x : Exchange) (deed : Deed) (c : CallId) : R x (x.performFor deed c).2 := by
  unfold Exchange.performFor
  split
  · exact h.perform x deed c
  · exact h.refl x

variable (hc : P c)
include hc

lemma pushVerdict (x : Exchange) (verdict : Verdict) : R x (x.pushVerdict c verdict).2 := by
  unfold Exchange.pushVerdict
  cases hcall : x.call? c with
  | none => exact h.refl x
  | some call =>
    dsimp only
    split
    case h_1 outbox hpush =>
      refine h.change x c _ hc fun former hformer => ⟨rfl, rfl, rfl, rfl, ?_⟩
      rw [hcall] at hformer
      cases hformer
      exact Delivery.Outbox.isClosed_of_push hpush
    case h_2 => exact h.refl x
    case h_3 => exact h.refl x

lemma popVerdict (x : Exchange) : R x (x.popVerdict c).2 := by
  unfold Exchange.popVerdict
  split
  case h_1 => exact h.refl x
  case h_2 verdict outbox hpop =>
    obtain ⟨call, hcall, hpop⟩ := Option.bind_eq_some_iff.mp hpop
    refine h.change x c _ hc fun former hformer => ⟨rfl, rfl, rfl, rfl, ?_⟩
    rw [hcall] at hformer
    cases hformer
    exact Delivery.Outbox.isClosed_of_pop hpop

lemma stepIntoBody (x : Exchange) (rest : Output → Course) :
    R x (x.stepIntoBody c rest).2 := by
  unfold Exchange.stepIntoBody
  split
  · exact h.refl x
  · refine h.trans (h.change x c _ hc fun _ _ => ?_) (h.note _ _ rfl)
    exact ⟨rfl, rfl, rfl, rfl, rfl⟩

lemma stepIntoPredicate (x : Exchange) (fault : Fault) (rest : Bool → Course) :
    R x (x.stepIntoPredicate c fault rest).2 := by
  unfold Exchange.stepIntoPredicate
  split
  · exact h.refl x
  · dsimp only
    split
    · exact h.refl x
    · refine h.change x c _ hc fun _ _ => ?_
      exact ⟨rfl, rfl, rfl, rfl, rfl⟩

lemma stepIntoCallback (x : Exchange) (verdict : Verdict) (rest : Course) :
    R x (x.stepIntoCallback c verdict rest).2 := by
  unfold Exchange.stepIntoCallback
  split
  · split
    · exact h.refl x
    · refine h.trans (h.change x c _ hc fun _ _ => ?_) (h.note _ _ rfl)
      exact ⟨rfl, rfl, rfl, rfl, rfl⟩
  · split
    · exact h.refl x
    · refine h.trans (h.change x c _ hc fun _ _ => ?_) (h.note _ _ rfl)
      exact ⟨rfl, rfl, rfl, rfl, rfl⟩
  · exact h.refl x

/-- A step of a run on its own course. -/
theorem stepRun (x : Exchange) (course : Course)
    (hkind : ∀ notice next, course = .report notice next → K notice.kind) :
    R x (x.stepRun c course).2 := by
  cases course with
  | finished | panics | askDisposed | readClock => exact h.refl x
  | start => exact h.start x c hc
  | report notice next => exact h.tell x c notice hc (hkind notice next rfl)
  | invoke => exact h.stepIntoBody hc x _
  | dispatch =>
    rw [Exchange.stepRun]
    split
    · exact h.stepIntoBody hc x _
    · exact h.refl x
  | consult => exact h.stepIntoPredicate hc x _ _
  | sleep nanos => exact h.elapse x nanos
  | await delay => exact h.trans (h.wait x c delay) (h.note _ _ rfl)
  | push verdict =>
    have hpushed := h.pushVerdict hc x verdict
    rw [Exchange.stepRun]
    generalize x.pushVerdict c verdict = pushed at hpushed ⊢
    obtain ⟨answer, y⟩ := pushed
    cases answer with
    | ok answer => exact hpushed
    | error halt => exact hpushed
  | pop => exact h.popVerdict hc x
  | callback => exact h.stepIntoCallback hc x _ _

omit hc in
lemma noteAny {α : Type} (sequel : Sequel α) (value : α) (x : Exchange) :
    R x (x.noteAny (sequel.entry value)) := by
  cases hentry : sequel.entry value with
  | none => exact h.refl x
  | some entry => exact h.note x entry (sequel.untold value entry hentry)

end IsCarried

lemma call_stepRun (x : Exchange) (c : CallId) (course : Course) :
    (x.stepRun c course).1.call = c := by
  have hbody (rest : Output → Course) : (x.stepIntoBody c rest).1.call = c := by
    unfold stepIntoBody
    split <;> rfl
  cases course with
  | invoke => exact hbody _
  | dispatch =>
    rw [stepRun]
    split
    · exact hbody _
    · rfl
  | consult =>
    rw [stepRun]
    unfold stepIntoPredicate
    split
    · rfl
    · dsimp only
      split <;> rfl
  | push =>
    rw [stepRun]
    split <;> rfl
  | callback =>
    rw [stepRun]
    unfold stepIntoCallback
    split
    · split <;> rfl
    · split <;> rfl
    · rfl
  | _ => rfl

end Exchange

namespace Scene

open Exchange

variable {s t u : Scene} {c d : CallId} {plan : Plan}

lemma step_run (c : CallId) (course : Course) (askers : List Asker) (x : Exchange) :
    step ⟨.run c course, askers, x⟩ =
      some ⟨(x.stepRun c course).1, askers, (x.stepRun c course).2⟩ := rfl

/-- The calls that are run at the moment. -/
def workers (s : Scene) : List CallId := s.task.call :: s.askers.map Asker.call

lemma workers_ne_nil (s : Scene) : s.workers ≠ [] := List.cons_ne_nil _ _

/-- A step belongs to the run at hand, or user code enters a further run, or such a run is over and
user code goes on. -/
theorem step_cases {K : EventKind → Prop} {P : CallId → Prop} {R : Exchange → Exchange → Prop}
    (h : IsCarried K P R) (hcall : P s.task.call)
    (hkind : ∀ c notice next, s.task = .run c (.report notice next) → K notice.kind)
    (hstep : s.step = some t) :
    (t.workers = s.workers ∧ t.askers = s.askers ∧ R s.exchange t.exchange) ∨
    (∃ target plan asker, s.exchange.runnable target = .ok plan ∧ t.workers = target :: s.workers ∧
      t = ⟨.run target (.blocking plan), asker :: s.askers,
        s.exchange.setPresence target .busy⟩) ∨
    ∃ c how asker askers, s.workers = c :: t.workers ∧ s.askers = asker :: askers ∧
      t = ⟨(asker.resume c how s.exchange).1, askers, (asker.resume c how s.exchange).2⟩ := by
  obtain ⟨task, askers, x⟩ := s
  cases task with
  | run c course =>
    cases hstep
    have hworkers := congrArg (· :: askers.map Asker.call) (call_stepRun x c course)
    exact Or.inl ⟨hworkers, rfl, h.stepRun hcall x course fun notice next hreport =>
      hkind c notice next (by rw [hreport])⟩
  | code role c script sequel =>
    cases hstep
    cases script with
    | done value => exact Or.inl ⟨rfl, rfl, h.noteAny sequel value x⟩
    | panic text => exact Or.inl ⟨rfl, rfl, h.refl x⟩
    | act deed target next =>
      exact Or.inl ⟨rfl, rfl, h.trans (h.performFor x deed target) (h.note _ _ rfl)⟩
    | run target next =>
      rw [stepCode]
      dsimp only
      split
      · cases hrunnable : x.runnable target with
        | error reply => exact Or.inl ⟨rfl, rfl, h.note _ _ rfl⟩
        | ok plan => exact Or.inr (Or.inl ⟨target, plan, _, hrunnable, rfl, rfl⟩)
      · exact Or.inl ⟨rfl, rfl, h.note _ _ rfl⟩
  | ended c how =>
    cases askers with
    | nil => cases hstep
    | cons asker askers =>
      cases hstep
      have hworkers := congrArg (fun d => c :: d :: askers.map Asker.call)
        (asker.call_resume c how x).symm
      exact Or.inr (Or.inr ⟨c, how, asker, askers, hworkers, rfl, rfl⟩)

end Scene

namespace Exchange

variable {x y : Exchange} {c d : CallId} {plan : Plan} {nesting : Nesting} {depth : Nat}

/-- How many calls are neither at work nor gone. -/
def here (x : Exchange) : Nat :=
  x.calls.countP fun entry => entry.any fun call => call.presence = .here

lemma here_congr (h : y.calls = x.calls) : y.here = x.here := by
  unfold here
  rw [h]

lemma here_le_length (x : Exchange) : x.here ≤ x.calls.length := List.countP_le_length

/-- A change to one call counts for that call only. -/
lemma here_modify {call : Call} (hcall : x.call? c = some call) (f : Call → Call) :
    (x.modify c f).here + (if call.presence = .here then 1 else 0) =
      x.here + if (f call).presence = .here then 1 else 0 := by
  unfold call? at hcall
  unfold here modify
  generalize x.calls = calls at hcall ⊢
  dsimp only
  induction calls generalizing c with
  | nil => cases hcall
  | cons entry calls ih =>
    cases c with
    | zero =>
      obtain rfl : entry = some call := by simpa using hcall
      simp only [List.modify_zero_cons, Option.map_some, List.countP_cons, Option.any_some,
        decide_eq_true_eq]
      omega
    | succ c =>
      have hrest := ih (c := c) (by simpa using hcall)
      simp only [List.modify_succ_cons, List.countP_cons]
      omega

lemma here_modify_le {f : Call → Call}
    (hf : ∀ call, x.call? c = some call → (f call).presence = .here → call.presence = .here) :
    (x.modify c f).here ≤ x.here := by
  cases hcall : x.call? c with
  | none =>
    rw [modify_of_fixed fun call hknown => by rw [hcall] at hknown; cases hknown]
  | some call =>
    have hcount := here_modify hcall f
    by_cases hafter : (f call).presence = .here
    · rw [if_pos hafter, if_pos (hf call hcall hafter)] at hcount
      omega
    · rw [if_neg hafter] at hcount
      omega

/-- Whatever a run does itself, it does not bring a call back. -/
lemma isCarried_here :
    IsCarried (fun _ => True) (fun _ => True) fun x y => y.here ≤ x.here where
  same hcalls _ := Nat.le_of_eq (here_congr hcalls)
  trans hxy hyz := Nat.le_trans hyz hxy
  note _ _ _ := Nat.le_refl _
  tell x c notice _ _ := Nat.le_of_eq (here_congr (calls_tell x c notice))
  start x c _ := by
    unfold Exchange.start
    split
    · exact Nat.le_refl _
    · exact here_modify_le fun _ _ hhere => hhere
  change x c f _ hf := here_modify_le fun call hcall hhere => (hf call hcall).presence ▸ hhere
  perform x deed c := by
    have hdispose (y : Exchange) : (y.dispose c).2.here ≤ y.here := by
      rw [Exchange.dispose_eq_tell]
      split
      case h_1 => exact Nat.le_refl _
      case h_2 call _ =>
        have hchanged : (y.modify c ({ · with handle := call.handle.dispose.2 })).here ≤ y.here :=
          here_modify_le fun _ _ hhere => hhere
        dsimp only
        split
        · rw [here_congr (calls_tell _ _ _)]
          exact hchanged
        · exact hchanged
    rcases perform_cases x deed c with hsame | hdisposed | ⟨call, -, -, hdropped⟩
    · rw [hsame]
    · rw [hdisposed]
      exact hdispose x
    · have hgone : (x.setPresence c .gone).here ≤ x.here :=
        here_modify_le fun _ _ hhere => by cases hhere
      have hclosed (y : Exchange) :
          (y.modify c fun call => { call with outbox := call.outbox.close }).here ≤ y.here :=
        here_modify_le fun _ _ hhere => hhere
      rw [hdropped]
      exact Nat.le_trans (hclosed _) (Nat.le_trans (hdispose _) hgone)

lemma here_setPresence_of_runnable (hrunnable : x.runnable c = .ok plan) {presence : Presence}
    (haway : presence ≠ .here) : (x.setPresence c presence).here + 1 = x.here := by
  obtain ⟨call, hcall, hhere, -⟩ := exists_of_runnable hrunnable
  have hcount := here_modify hcall ({ · with presence })
  rw [if_pos hhere, if_neg haway] at hcount
  exact hcount

lemma here_setPresence_le_succ (x : Exchange) (c : CallId) (presence : Presence) :
    (x.setPresence c presence).here ≤ x.here + 1 := by
  cases hcall : x.call? c with
  | none =>
    rw [setPresence, modify_of_fixed fun call hknown => by rw [hcall] at hknown; cases hknown]
    exact Nat.le_succ _
  | some call =>
    have hcount : (x.setPresence c presence).here + _ = _ := here_modify hcall ({ · with presence })
    split at hcount <;> split at hcount <;> omega

end Exchange

/-- The outermost run stays the same. -/
lemma Scene.getLast?_workers {s t : Scene} (h : Reaches step s t) :
    t.workers.getLast? = s.workers.getLast? := by
  induction h with
  | refl => rfl
  | tail _ hstep ih =>
    rw [← ih]
    rcases step_cases Exchange.isCarried_here trivial (fun _ _ _ _ => trivial) hstep with
      ⟨hsame, -⟩ | ⟨target, plan, asker, -, hmore, -⟩ | ⟨c, how, asker, askers, hless, -⟩
    · rw [hsame]
    · rw [hmore]
      rfl
    · rw [hless]
      rfl

/-- Steps lead from one scene to the other, and no call has come back. -/
structure Scene.LeadsTo (s t : Scene) : Prop where
  reaches : Reaches step s t
  here : t.exchange.here ≤ s.exchange.here

namespace Scene.LeadsTo

open Exchange

variable {s t u : Scene}

lemma refl (s : Scene) : s.LeadsTo s := ⟨.refl, Nat.le_refl _⟩

lemma trans (hst : s.LeadsTo t) (htu : t.LeadsTo u) : s.LeadsTo u :=
  ⟨hst.reaches.trans htu.reaches, Nat.le_trans htu.here hst.here⟩

/-- A step that enters no run and ends none. -/
lemma of_step (hstep : s.step = some t) (haskers : t.askers = s.askers) : s.LeadsTo t := by
  refine ⟨.single hstep, ?_⟩
  have hne (asker : Asker) (askers : List Asker) : asker :: askers ≠ askers := by simp
  rcases step_cases isCarried_here trivial (fun _ _ _ _ => trivial) hstep with
    ⟨-, -, hhere⟩ | ⟨target, plan, asker, -, -, rfl⟩ | ⟨c, how, asker, askers, -, hcons, rfl⟩
  · exact hhere
  · exact absurd haskers (hne _ _)
  · rw [hcons] at haskers
    exact absurd haskers.symm (hne _ _)

lemma step (hstep : s.step = some t) (haskers : t.askers = s.askers) (htu : t.LeadsTo u) :
    s.LeadsTo u :=
  (of_step hstep haskers).trans htu

end Scene.LeadsTo

/-- How a run goes on when its user code has come to a value or not. -/
def Sequel.take {α : Type} (sequel : Sequel α) (c : CallId) (x : Exchange) :
    Except Halt α → Task × Exchange
  | .ok value => (.run c (sequel.rest value), x.noteAny (sequel.entry value))
  | .error halt => (.ended c (.error halt), x)

namespace Exchange

variable {x y : Exchange} {c d : CallId} {plan : Plan} {nesting : Nesting} {depth : Nat}

/-- Requests for a run are met as steps meet them, as long as no more than `depth` calls could be
run. -/
structure Nesting.Steps (nesting : Nesting) (depth : Nat) : Prop where
  refused : ∀ c x reply, x.runnable c = .error reply → nesting c x = (reply, x)
  run : ∀ c x plan, x.here ≤ depth → x.runnable c = .ok plan →
    ∃ how y, nesting c x = (.ended how, y.setPresence c .here) ∧ ∀ askers,
      Scene.LeadsTo ⟨.run c (.blocking plan), askers, x.setPresence c .busy⟩
        ⟨.ended c how, askers, y⟩

lemma play_run {α : Type} {role : Role} {target : CallId} {next : RunReply → Script α}
    {reply : RunReply} (hran : nesting.runFor target x = (reply, y))
    (hreply : reply ≠ .ended (.error .stuck)) :
    x.play nesting role c (.run target next) =
      (y.note (.nested role c target reply)).play nesting role c (next reply) := by
  rw [play]
  split
  case h_1 heq =>
    rw [hran] at heq
    cases heq
    exact absurd rfl hreply
  case h_2 heq =>
    rw [hran] at heq
    cases heq
    rfl

section Steps

variable (hnesting : nesting.Steps depth)
include hnesting

/-- A request for a run that can begin is met in steps: code that asks goes on where the run has
come to. -/
lemma exists_leadsTo_resume {α : Type} (role : Role) (c : CallId) (sequel : Sequel α)
    (askers : List Asker) {target : CallId} (next : RunReply → Script α) (hx : x.here ≤ depth)
    (hreaches : x.reaches target) (hrunnable : x.runnable target = .ok plan) :
    ∃ how y, nesting.runFor target x = (.ended how, y.setPresence target .here) ∧
      let resumed := Asker.resume ⟨role, c, next, sequel⟩ target how y
      Scene.LeadsTo ⟨.code role c (.run target next) sequel, askers, x⟩
        ⟨resumed.1, askers, resumed.2⟩ := by
  obtain ⟨how, y, hran, hleads⟩ := hnesting.run target x plan hx hrunnable
  have hasked : nesting.runFor target x = nesting target x := if_pos hreaches
  refine ⟨how, y, hasked.trans hran, ?_⟩
  intro resumed
  have hstep : Scene.step ⟨.code role c (.run target next) sequel, askers, x⟩ =
      some (Scene.stepCode role c sequel askers x (.run target next)) := rfl
  rw [Scene.stepCode, if_pos hreaches, hrunnable] at hstep
  have hinner := hleads (⟨role, c, next, sequel⟩ :: askers)
  have hback : (y.setPresence target .here).here ≤ x.here := by
    have hbusy := here_setPresence_of_runnable hrunnable Presence.busy_ne_here
    have hback := here_setPresence_le_succ y target .here
    have hkept : y.here ≤ (x.setPresence target .busy).here := hinner.here
    omega
  refine ⟨.head hstep (hinner.reaches.trans (.single rfl)), ?_⟩
  have hresumed : resumed.2.here = (y.setPresence target .here).here := by
    dsimp only [resumed]
    unfold Asker.resume
    split
    · rfl
    · rfl
  exact hresumed.trans_le hback

/-- Steps through user code end where `play` does. -/
theorem leadsTo_play {α : Type} (role : Role) (c : CallId) (sequel : Sequel α)
    (askers : List Asker) (script : Script α) (hx : x.here ≤ depth) :
    let played := x.play nesting role c script
    let taken := sequel.take c played.2 played.1
    Scene.LeadsTo ⟨.code role c script sequel, askers, x⟩ ⟨taken.1, askers, taken.2⟩ := by
  intro played taken
  induction script generalizing x with
  | done value => exact .of_step rfl rfl
  | panic text => exact .of_step rfl rfl
  | act deed target next ih =>
    have hacted : Scene.LeadsTo ⟨.code role c (.act deed target next) sequel, askers, x⟩
        ⟨.code role c (next (x.performFor deed target).1) sequel, askers,
          (x.performFor deed target).2.note
            (.acted role c deed target (x.performFor deed target).1)⟩ := .of_step rfl rfl
    exact hacted.trans (ih _ (Nat.le_trans hacted.here hx))
  | run target next ih =>
    -- A run that has ended, or was refused, is answered; the code goes on with the answer.
    have hanswered {reply : RunReply} {y : Exchange} (hran : nesting.runFor target x = (reply, y))
        (hreply : reply ≠ .ended (.error .stuck))
        (hleads : Scene.LeadsTo ⟨.code role c (.run target next) sequel, askers, x⟩
          ⟨.code role c (next reply) sequel, askers, y.note (.nested role c target reply)⟩) :
        Scene.LeadsTo ⟨.code role c (.run target next) sequel, askers, x⟩
          ⟨taken.1, askers, taken.2⟩ := by
      have hrest := ih reply (Nat.le_trans hleads.here hx)
      rw [← play_run hran hreply] at hrest
      exact hleads.trans hrest
    have hstep : Scene.step ⟨.code role c (.run target next) sequel, askers, x⟩ =
        some (Scene.stepCode role c sequel askers x (.run target next)) := rfl
    rw [Scene.stepCode] at hstep
    by_cases hreaches : x.reaches target
    · have hasked : nesting.runFor target x = nesting target x := if_pos hreaches
      cases hrunnable : x.runnable target with
      | error reply =>
        rw [if_pos hreaches, hrunnable] at hstep
        exact hanswered (hasked.trans (hnesting.refused target x reply hrunnable))
          (runnable_ne_ended hrunnable _) (.of_step hstep rfl)
      | ok plan =>
        obtain ⟨how, y, hran, hleads⟩ :=
          exists_leadsTo_resume hnesting role c sequel askers next hx hreaches hrunnable
        by_cases hstuck : how = .error .stuck
        · -- The run waits in vain, and so does the code that asked for it.
          subst hstuck
          have hplayed : played = (.error .stuck, y.setPresence target .here) := by
            show x.play nesting role c (.run target next) = _
            unfold play
            rw [hran]
          have htaken : taken = (.ended c (.error .stuck), y.setPresence target .here) := by
            show sequel.take c played.2 played.1 = _
            rw [hplayed]
            rfl
          rw [htaken]
          exact hleads
        · rw [Asker.resume_of_ne _ hstuck] at hleads
          exact hanswered hran (fun heq => hstuck (RunReply.ended.inj heq)) hleads
    · rw [if_neg hreaches] at hstep
      exact hanswered (if_neg hreaches) nofun (.of_step hstep rfl)

lemma leadsTo_invokeBody (c : CallId) (rest : Output → Course) (askers : List Asker)
    (hx : x.here ≤ depth) :
    let body := x.invokeBody nesting c
    let taken := Sequel.take { rest } c body.2 body.1
    Scene.LeadsTo ⟨(x.stepIntoBody c rest).1, askers, (x.stepIntoBody c rest).2⟩
      ⟨taken.1, askers, taken.2⟩ := by
  have hhere := Nat.le_trans (isCarried_here.stepIntoBody (c := c) trivial x rest) hx
  unfold invokeBody enter
  unfold stepIntoBody at hhere ⊢
  cases hcall : x.call? c with
  | none => exact .refl _
  | some call =>
    rw [hcall] at hhere
    exact leadsTo_play hnesting _ _ _ _ _ hhere

lemma leadsTo_consultPredicate (c : CallId) (fault : Fault) (rest : Bool → Course)
    (askers : List Asker) (hx : x.here ≤ depth) :
    let asked := x.consultPredicate nesting c fault
    let taken := Sequel.take { rest } c asked.2 asked.1
    Scene.LeadsTo
      ⟨(x.stepIntoPredicate c fault rest).1, askers, (x.stepIntoPredicate c fault rest).2⟩
      ⟨taken.1, askers, taken.2⟩ := by
  have hhere := Nat.le_trans (isCarried_here.stepIntoPredicate (c := c) trivial x fault rest) hx
  unfold consultPredicate
  unfold stepIntoPredicate at hhere ⊢
  cases hcall : x.call? c with
  | none => exact .refl _
  | some call =>
    rw [hcall] at hhere
    dsimp only at hhere ⊢
    cases hpredicate : call.plan.rule.predicate with
    | none => exact .refl _
    | some predicate =>
      rw [hpredicate] at hhere
      have hplayed := leadsTo_play hnesting .predicate c (.ofPredicate c fault rest) askers
        (predicate (call.predicateCalls + 1) fault) hhere
      dsimp only at hplayed ⊢
      generalize play nesting _ _ _ _ = played at hplayed ⊢
      obtain ⟨answer, y⟩ := played
      cases answer with
      | ok again => exact hplayed
      | error halt => exact hplayed

lemma leadsTo_callBack (c : CallId) (verdict : Verdict) (rest : Course) (askers : List Asker)
    (hx : x.here ≤ depth) :
    let called := x.callBack nesting c verdict
    let taken := Sequel.take { rest := fun _ => rest } c called.2 called.1
    Scene.LeadsTo
      ⟨(x.stepIntoCallback c verdict rest).1, askers, (x.stepIntoCallback c verdict rest).2⟩
      ⟨taken.1, askers, taken.2⟩ := by
  have hhere := Nat.le_trans (isCarried_here.stepIntoCallback (c := c) trivial x verdict rest) hx
  unfold callBack enter
  unfold stepIntoCallback at hhere ⊢
  cases hcall : x.call? c with
  | none => exact .refl _
  | some call =>
    rw [hcall] at hhere
    cases verdict with
    | success result =>
      dsimp only at hhere ⊢
      cases hcallback : call.onSuccess with
      | none => exact .refl _
      | some callback =>
        rw [hcallback] at hhere
        exact leadsTo_play hnesting _ _ _ _ _ hhere
    | failure fault =>
      dsimp only at hhere ⊢
      cases hcallback : call.onFailure with
      | none => exact .refl _
      | some callback =>
        rw [hcallback] at hhere
        exact leadsTo_play hnesting _ _ _ _ _ hhere

/-- Steps through a run end where `follow` does. -/
theorem leadsTo_follow (c : CallId) (askers : List Asker) (course : Course) (hx : x.here ≤ depth) :
    let followed := follow nesting c course x
    Scene.LeadsTo ⟨.run c course, askers, x⟩ ⟨.ended c followed.1, askers, followed.2⟩ := by
  induction course generalizing x with
  | finished | panics => exact .of_step rfl rfl
  | askDisposed next ih | readClock next ih => exact .step rfl rfl (ih _ hx)
  | start next ih =>
    exact .step rfl rfl (ih _ (Nat.le_trans (isCarried_here.start x c trivial) hx))
  | report notice next ih =>
    exact .step rfl rfl (ih (Nat.le_trans (isCarried_here.tell x c notice trivial trivial) hx))
  | sleep nanos next ih =>
    exact .step rfl rfl (ih (Nat.le_trans (isCarried_here.elapse x nanos) hx))
  | await delay next ih =>
    exact .step rfl rfl (ih (Nat.le_trans (isCarried_here.wait x c delay) hx))
  | pop next ih =>
    exact .step rfl rfl (ih _ (Nat.le_trans (isCarried_here.popVerdict trivial x) hx))
  | push verdict next ih =>
    have hpushed := Nat.le_trans (isCarried_here.pushVerdict (c := c) trivial x verdict) hx
    have hstep : Scene.LeadsTo ⟨.run c (.push verdict next), askers, x⟩
        ⟨(x.stepRun c (.push verdict next)).1, askers, (x.stepRun c (.push verdict next)).2⟩ :=
      .of_step rfl rfl
    rw [stepRun] at hstep
    rw [follow]
    generalize x.pushVerdict c verdict = pushed at hpushed hstep ⊢
    obtain ⟨answer, y⟩ := pushed
    cases answer with
    | ok answer => exact hstep.trans (ih answer hpushed)
    | error halt => exact hstep
  | invoke next ih =>
    have hbody : Scene.LeadsTo ⟨.run c (.invoke next), askers, x⟩ _ :=
      .step rfl rfl (leadsTo_invokeBody hnesting c next askers hx)
    rw [follow]
    generalize x.invokeBody nesting c = body at hbody ⊢
    obtain ⟨output, y⟩ := body
    cases output with
    | ok output => exact hbody.trans (ih output (Nat.le_trans hbody.here hx))
    | error halt => exact hbody
  | dispatch next ih =>
    by_cases hstaffed : x.staffed
    · have hstep : Scene.step ⟨.run c (.dispatch next), askers, x⟩ =
          some ⟨(x.stepIntoBody c fun output => next (some output)).1, askers,
            (x.stepIntoBody c fun output => next (some output)).2⟩ := by
        rw [Scene.step_run, stepRun, if_pos hstaffed]
      have hbody := Scene.LeadsTo.step hstep rfl
        (leadsTo_invokeBody hnesting c (fun output => next (some output)) askers hx)
      rw [follow, if_pos hstaffed]
      generalize x.invokeBody nesting c = body at hbody ⊢
      obtain ⟨output, y⟩ := body
      cases output with
      | ok output => exact hbody.trans (ih _ (Nat.le_trans hbody.here hx))
      | error halt => exact hbody
    · have hstep : Scene.step ⟨.run c (.dispatch next), askers, x⟩ =
          some ⟨.run c (next none), askers, x⟩ := by
        rw [Scene.step_run, stepRun, if_neg hstaffed]
      rw [follow, if_neg hstaffed]
      exact .step hstep rfl (ih none hx)
  | consult fault next ih =>
    have hasked : Scene.LeadsTo ⟨.run c (.consult fault next), askers, x⟩ _ :=
      .step rfl rfl (leadsTo_consultPredicate hnesting c fault next askers hx)
    rw [follow]
    generalize x.consultPredicate nesting c fault = asked at hasked ⊢
    obtain ⟨answer, y⟩ := asked
    cases answer with
    | ok again => exact hasked.trans (ih again (Nat.le_trans hasked.here hx))
    | error halt => exact hasked
  | callback verdict next ih =>
    have hcalled : Scene.LeadsTo ⟨.run c (.callback verdict next), askers, x⟩ _ :=
      .step rfl rfl (leadsTo_callBack hnesting c verdict next askers hx)
    rw [follow]
    generalize x.callBack nesting c verdict = called at hcalled ⊢
    obtain ⟨ended, y⟩ := called
    cases ended with
    | ok _ => exact hcalled.trans (ih (Nat.le_trans hcalled.here hx))
    | error halt => exact hcalled

end Steps

/-- The depth that the recursion on it gets is always enough: with every nested run there is one
call less that could be run. -/
theorem steps_runWithin (depth : Nat) : Nesting.Steps (runWithin depth) depth := by
  induction depth with
  | zero =>
    refine ⟨fun c x reply hrunnable => ?_, fun c x plan hx hrunnable => ?_⟩
    · unfold runWithin
      rw [hrunnable]
    · have hbusy := here_setPresence_of_runnable hrunnable Presence.busy_ne_here
      omega
  | succ depth ih =>
    refine ⟨fun c x reply hrunnable => ?_, fun c x plan hx hrunnable => ?_⟩
    · unfold runWithin
      rw [hrunnable]
    · have hbusy := here_setPresence_of_runnable hrunnable Presence.busy_ne_here
      have hless : (x.setPresence c .busy).here ≤ depth := by omega
      unfold runWithin
      rw [hrunnable]
      exact ⟨_, _, rfl, fun askers => leadsTo_follow ih c askers (.blocking plan) hless⟩

/-- Steps through a run of a call end where `run` does. -/
theorem leadsTo_run (hrunnable : x.runnable c = .ok plan) :
    ∃ how y, x.run c = (.ended how, y.setPresence c .here) ∧
      Scene.LeadsTo (x.opening .blocking c plan) ⟨.ended c how, [], y⟩ := by
  obtain ⟨how, y, hran, hleads⟩ :=
    (steps_runWithin x.calls.length).run c x plan x.here_le_length hrunnable
  exact ⟨how, y, hran, hleads []⟩

/-- Steps through an asynchronous run of a call end where `runAsync` does. -/
theorem leadsTo_runAsync (hrunnable : x.runnable c = .ok plan) :
    ∃ how y, x.runAsync c = (.ended how, y.release c) ∧
      Scene.LeadsTo (x.opening .asynchronous c plan) ⟨.ended c how, [], y⟩ := by
  unfold runAsync
  rw [hrunnable]
  exact ⟨_, _, rfl, leadsTo_follow (steps_runWithin _) c [] (.async plan) (here_le_length _)⟩

end Exchange

namespace Scene

open Exchange

/-- Whatever is being done, it comes to the end of the run at hand. -/
theorem exists_leadsTo_over (s : Scene) :
    ∃ how y, s.LeadsTo ⟨.ended s.task.call how, s.askers, y⟩ := by
  obtain ⟨task, askers, x⟩ := s
  have hnesting := steps_runWithin x.here
  cases task with
  | run c course => exact ⟨_, _, leadsTo_follow hnesting c askers course (Nat.le_refl _)⟩
  | code role c script sequel =>
    have hplayed := leadsTo_play hnesting role c sequel askers script (Nat.le_refl _)
    generalize x.play (runWithin x.here) role c script = played at hplayed
    obtain ⟨answer, y⟩ := played
    cases answer with
    | ok value => exact ⟨_, _, hplayed.trans (leadsTo_follow hnesting c askers _ hplayed.here)⟩
    | error halt => exact ⟨_, _, hplayed⟩
  | ended c how => exact ⟨how, x, .refl _⟩

/-- Whatever is being done and however it is nested, it comes to an end. -/
theorem eval_dom (s : Scene) : (eval Scene.step s).Dom := by
  obtain ⟨task, askers, x⟩ := s
  induction askers generalizing task x with
  | nil =>
    obtain ⟨how, y, hover⟩ := exists_leadsTo_over ⟨task, [], x⟩
    rw [reaches_eval hover.reaches]
    exact Part.dom_iff_mem.mpr ⟨_, mem_eval.mpr ⟨.refl, rfl⟩⟩
  | cons asker askers ih =>
    obtain ⟨how, y, hover⟩ := exists_leadsTo_over ⟨task, asker :: askers, x⟩
    have hresumed := hover.reaches.tail (c := ⟨_, askers, _⟩) rfl
    rw [reaches_eval hresumed]
    exact ih _ _

end Scene

end Redial
