import Redial.Proofs.Alarms
import Redial.Proofs.RunsAsRaces
import Redial.Proofs.SessionSteps

/-!
# The history of a call

What happens to one call in a session, whatever else is going on there. Some of it comes from
outside: the call is run or disposed, its user code comes to a value or panics, somebody is there to
invoke its body or not. The rest is what the call makes of it: it invokes its user code, waits,
tells of events and changes the state of its handle. The history is read off the steps of the
session, and of all that the journal tells of the call nothing is missing in it.
-/

namespace Redial

open StateTransition Relation

/-- What a call meets with. -/
inductive Stimulus : Type 1 where
  /-- Somebody runs it, and it can be run. -/
  | begun (manner : Manner)
  /-- Somebody disposes its handle for the first time. -/
  | disposed
  /-- Its body, its predicate or a callback of it comes to a value. -/
  | returned {α : Type} (value : α)
  | panicked (text : String)
  /-- Whether there is somebody to invoke its body elsewhere. -/
  | staffed (staffed : Bool)
  /-- Whether the instant at which a pause will be over can be named. -/
  | timed (inTime : Bool)
  /-- Whether others dispose its handle while it sleeps or waits. -/
  | paused (isDisposed : Bool)

/-- What a call does. -/
inductive Reaction where
  | invoked (n : Nat)
  /-- It invokes its predicate; the answer is known later. -/
  | asked (n : Nat) (fault : Fault)
  | consulted (fault : Fault) (answer : Bool)
  | delivered (verdict : Verdict)
  /-- It tells of an event, on a feed if it has one. -/
  | told (notice : Notice) (isPublished : Bool)
  | waited (delay : Duration)
  | slept (nanos : Nat)
  /-- The state of its handle changes. -/
  | turned (state : HandleState)
  | ended (how : Except Halt Unit)

inductive Happening : Type 1 where
  | felt (stimulus : Stimulus)
  | did (reaction : Reaction)

abbrev History := List Happening

/-- The journal tells of it. -/
def Reaction.isNoted : Reaction → Bool
  | invoked _ | consulted _ _ | delivered _ | told _ _ | waited _ => true
  | asked _ _ | slept _ | turned _ | ended _ => false

namespace Happening

def stimulus? : Happening → Option Stimulus
  | felt stimulus => some stimulus
  | did _ => none

def noted? : Happening → Option Reaction
  | felt _ => none
  | did reaction => if reaction.isNoted then some reaction else none

end Happening

namespace History

/-- What the journal tells of it. -/
def noted (h : History) : List Reaction := h.filterMap Happening.noted?

/-- What the call meets with next, unless it does something or the history ends. -/
def next? (h : History) : Option Stimulus := h.head?.bind Happening.stimulus?

/-- The call does nothing before it meets with something. -/
def isAwaiting (h : History) : Bool := h.head?.all fun happening => happening.stimulus?.isSome

/-- Wherever the two histories have been the same so far and nothing is done next in either, the
call meets with the same in both, or with nothing any more. -/
def MeetsSame (h h' : History) : Prop :=
  ∀ past rest rest' : History, h = past ++ rest → h' = past ++ rest' →
    rest.isAwaiting → rest'.isAwaiting → rest.next? = rest'.next?

/-- What may come from outside at once, and what is done on it. -/
def beat (felt : Option Stimulus) (did : List Reaction) : History :=
  felt.toList.map .felt ++ did.map .did

variable (h k : History) (felt : Option Stimulus) (did : List Reaction)

lemma MeetsSame.refl : h.MeetsSame h := by
  intro past rest rest' hrest hrest' _ _
  rw [List.append_cancel_left (hrest.symm.trans hrest')]

lemma MeetsSame.of_append {past h h' : History} (hmeets : MeetsSame (past ++ h) (past ++ h')) :
    h.MeetsSame h' := by
  rintro more rest rest' rfl rfl
  have hassoc (last : History) : past ++ (more ++ last) = past ++ more ++ last :=
    (List.append_assoc past more last).symm
  exact hmeets (past ++ more) rest rest' (hassoc rest) (hassoc rest')

lemma noted_append : noted (h ++ k) = h.noted ++ k.noted := List.filterMap_append

lemma noted_beat : (beat felt did).noted = did.filter Reaction.isNoted := by
  have hfelt : (felt.toList.map Happening.felt).filterMap Happening.noted? = [] := by
    rw [List.filterMap_map]
    exact List.filterMap_eq_nil_iff.mpr fun _ _ => rfl
  have hdid : (did.map Happening.did).filterMap Happening.noted? = did.filter Reaction.isNoted := by
    rw [List.filterMap_map, ← List.filterMap_eq_filter]
    rfl
  unfold beat
  rw [noted_append, noted, noted, hfelt, hdid, List.nil_append]

end History

/-- Who did what, as far as it is noted of a call; what user code does to calls is not counted. -/
def Entry.reaction : Entry → Option (CallId × Reaction)
  | .invoked c n => some (c, .invoked n)
  | .consulted c fault answer => some (c, .consulted fault answer)
  | .delivered c verdict => some (c, .delivered verdict)
  | .waited c delay => some (c, .waited delay)
  | .told c notice place => some (c, .told notice place.isSome)
  | .acted .. | .nested .. => none

/-- What the entry tells of call `c`. -/
def Entry.reaction? (c : CallId) (entry : Entry) : Option Reaction :=
  entry.reaction.bind fun (d, reaction) => if d = c then some reaction else none

lemma Entry.isNoted_of_reaction? {c : CallId} {entry : Entry} {reaction : Reaction}
    (h : entry.reaction? c = some reaction) : reaction.isNoted = true := by
  obtain ⟨⟨d, done⟩, hdone, hsome⟩ := Option.bind_eq_some_iff.mp h
  obtain ⟨-, rfl⟩ : d = c ∧ done = reaction := by simpa using hsome
  cases entry with
  | acted | nested => cases hdone
  | invoked | consulted | delivered | waited | told =>
    cases hdone
    rfl

namespace Exchange

/-- The entries of the journal since `x`, oldest first. -/
def since (x y : Exchange) : List Entry :=
  (y.journal.take (y.journal.length - x.journal.length)).reverse

/-- What the journal tells of call `c` since `x`. -/
def news (c : CallId) (x y : Exchange) : List Reaction := (x.since y).filterMap (Entry.reaction? c)

/-- How the state of the handle of call `c` has changed since `x`. -/
def turns (c : CallId) (x y : Exchange) : List Reaction :=
  match x.call? c, y.call? c with
  | some before, some after =>
    if before.handle.state = after.handle.state then [] else [.turned after.handle.state]
  | _, _ => []

/-- The handle of call `c` has been disposed since `x`. -/
def struck (c : CallId) (x y : Exchange) : Option Stimulus :=
  if !x.isDisposed c && y.isDisposed c then some .disposed else none

/-- What happens to call `c` by one operation that leads from `x` to `y`. -/
def beat (c : CallId) (x y : Exchange) : History := .beat (x.struck c y) (x.turns c y ++ x.news c y)

end Exchange

namespace Course

def isPanic : Course → Bool
  | panics _ => true
  | _ => false

/-- The clock is read to name the instant at which a pause will be over. Late enough, there is none;
within a pause, looking at the clock never fails. -/
def opensPause (next : Nat → Course) : Bool := (next clockLimit).isPanic

/-- What others decide about the next step of the run of call `c`. -/
def felt (c : CallId) (x : Exchange) : Course → Option Stimulus
  | dispatch _ => some (.staffed x.staffed)
  | readClock next => if opensPause next then some (.timed !(next x.clock).isPanic) else none
  | sleep nanos _ => some (.paused (x.struck c (x.elapse nanos)).isSome)
  | await delay _ => some (.paused (x.struck c (x.wait c delay)).isSome)
  | _ => none

/-- What the next step of a run does without a word about it in the journal. -/
def silent (call : Call) : Course → List Reaction
  | consult fault _ =>
    if call.plan.rule.predicate.isSome then [.asked (call.predicateCalls + 1) fault] else []
  | sleep nanos _ => [.slept nanos]
  | _ => []

end Course

def Script.felt {α : Type} : Script α → Option Stimulus
  | .done value => some (.returned value)
  | .panic text => some (.panicked text)
  | .act .. | .run .. => none

namespace Task

/-- What call `c` meets with if the task is its own. -/
def felt (c : CallId) (x : Exchange) : Task → Option Stimulus
  | run d course => if d = c then course.felt c x else none
  | code _ d script _ => if d = c then script.felt else none
  | ended .. => none

def silent (c : CallId) (x : Exchange) : Task → List Reaction
  | run d course => if d = c then (x.call? c).elim [] course.silent else []
  | code .. | ended .. => []

/-- The run of call `c` has come to its end. -/
def outcome (c : CallId) : Task → List Reaction
  | ended d how => if d = c then [.ended how] else []
  | run .. | code .. => []

end Task

namespace Scene

/-- Call `c` has been entered by user code that waits for it now. -/
def entered (c : CallId) (s t : Scene) : Option Stimulus :=
  if s.askers.length < t.askers.length ∧ t.task.call = c then some (.begun .blocking) else none

/-- What happens to call `c` by the step from `s` to `t`. -/
def beat (c : CallId) (s t : Scene) : History :=
  .beat ((s.task.felt c s.exchange).or ((entered c s t).or (s.exchange.struck c t.exchange)))
    (s.exchange.turns c t.exchange ++ s.exchange.news c t.exchange ++
      s.task.silent c s.exchange ++ t.task.outcome c)

/-- Steps cannot go on for ever. -/
theorem wellFounded_step : WellFounded fun t s : Scene => s.step = some t :=
  ⟨fun s => evalInduction (C := fun s => Acc (fun t s : Scene => s.step = some t) s)
    (Part.get_mem s.eval_dom) fun s _ ih => ⟨s, fun t hstep => ih t hstep⟩⟩

/-- What happens to call `c` until the outermost run is over, and what its end brings. -/
def history (c : CallId) (manner : Manner) (s : Scene) : History :=
  match _hstep : s.step with
  | none => s.exchange.beat c (manner.close s.exchange s.task.call)
  | some t => s.beat c t ++ t.history c manner
termination_by wellFounded_step.wrap s

/-- The same, if so many steps are enough. -/
def watch (c : CallId) (manner : Manner) : Nat → Scene → Option History
  | 0, _ => none
  | looks + 1, s =>
    match s.step with
    | none => some (s.exchange.beat c (manner.close s.exchange s.task.call))
    | some t => (t.watch c manner looks).map (s.beat c t ++ ·)

variable {s t : Scene} {c : CallId} {manner : Manner}

lemma history_of_none (hstep : s.step = none) :
    s.history c manner = s.exchange.beat c (manner.close s.exchange s.task.call) := by
  rw [history]
  split
  case h_1 => rfl
  case h_2 heq =>
    rw [hstep] at heq
    cases heq

lemma history_of_step (hstep : s.step = some t) :
    s.history c manner = s.beat c t ++ t.history c manner := by
  rw [history]
  split
  case h_1 heq =>
    rw [hstep] at heq
    cases heq
  case h_2 heq =>
    rw [hstep] at heq
    cases heq
    rfl

lemma history_of_watch {looks : Nat} {h : History} (hwatch : s.watch c manner looks = some h) :
    s.history c manner = h := by
  induction looks generalizing s h with
  | zero => cases hwatch
  | succ looks ih =>
    rw [watch] at hwatch
    cases hstep : s.step with
    | none =>
      rw [hstep] at hwatch
      cases hwatch
      exact history_of_none hstep
    | some t =>
      rw [hstep] at hwatch
      obtain ⟨rest, hrest, rfl⟩ := Option.map_eq_some_iff.mp hwatch
      rw [history_of_step hstep, ih hrest]

end Scene

/-- What happens to call `c` while call `d` is run. -/
def Exchange.runHistory (x : Exchange) (c : CallId) (manner : Manner) (d : CallId) : History :=
  match x.runnable d with
  | .error _ => []
  | .ok plan =>
    .beat (if d = c then some (.begun manner) else none) [] ++
      (x.opening manner d plan).history c manner

/-- The same of an asynchronous run on a timer that begins with it. -/
def Exchange.timedHistory (x : Exchange) (c d : CallId) : History :=
  Exchange.runHistory { x with timer := 0 } c .asynchronous d

namespace Session

/-- The alarm is set for a blocking run beside another thread. -/
def underWatch (d : CallId) (n : Nat) (x : Exchange) : Exchange :=
  let alarm := ((x.call? d).bind (·.feed)).map fun feed =>
    ({ target := d, trigger := .retries feed n watchDelay } : Alarm)
  { x with alarm }

/-- The alarm is set for an asynchronous run beside a disposal. -/
def underTimer (d : CallId) (millis : Nat) (x : Exchange) : Exchange :=
  { x with alarm := some { target := d, trigger := .timer (min millis Exchange.longestWait) } }

lemma runWatched_cases (d : CallId) (n : Nat) (x : Exchange) :
    let y := ((underWatch d n x).run d).2
    (runWatched d n x).2 = { y with alarm := none } ∨
      ∃ nanos, (runWatched d n x).2 = { y.elapse nanos with alarm := none } := by
  dsimp only
  unfold runWatched
  dsimp only
  split
  · exact Or.inr ⟨_, rfl⟩
  · exact Or.inl rfl

lemma spawn_cases (d : CallId) (millis : Nat) (x : Exchange) :
    let y := (runTimed d (underTimer d (millis + 1) x)).2
    (spawn d (some (millis + 1)) x).2 = { y with alarm := none } ∨
      ∃ timer alarm, (spawn d (some (millis + 1)) x).2 =
        { Exchange.ring { y with timer } alarm with alarm := none } := by
  dsimp only
  rw [spawn]
  · dsimp only
    split
    · exact Or.inr ⟨_, _, rfl⟩
    · exact Or.inl rfl
  · exact Nat.succ_ne_zero millis

/-- Nothing happens if there is no such call. -/
def ifPresent (s : Session) (d : CallId) (h : History) : History :=
  (s.exchange.present? d).elim [] fun _ => h

/-- What happens to call `c` while a command is carried out. An alarm may go off after the run. -/
def during (c : CallId) (s : Session) : Command → History
  | .run d => s.ifPresent d (s.exchange.runHistory c .blocking d)
  | .runWatched d n =>
    let x := underWatch d n s.exchange
    s.ifPresent d (x.runHistory c .blocking d ++
      (x.run d).2.beat c (runWatched d n s.exchange).2)
  | .runAsync d | .spawn d none => s.ifPresent d (s.exchange.timedHistory c d)
  | .spawn d (some 0) =>
    let x := (s.exchange.dispose d).2
    s.ifPresent d (s.exchange.beat c x ++ x.timedHistory c d)
  | .spawn d (some (millis + 1)) =>
    let x := underTimer d (millis + 1) s.exchange
    s.ifPresent d (x.timedHistory c d ++
      (runTimed d x).2.beat c (spawn d (some (millis + 1)) s.exchange).2)
  | .runUnstaffed d =>
    s.ifPresent d (Exchange.runHistory { s.exchange with staffed := false } c .asynchronous d)
  | command => s.exchange.beat c (s.execute command).2.exchange

/-- What happens to call `c` while commands are carried out one after the other. -/
def history (c : CallId) (s : Session) : List Command → History
  | [] => []
  | command :: rest => s.during c command ++ (s.step command).2.history c rest

lemma history_run {s : Session} {c d : CallId} {plan : Plan} {h : History} (looks : Nat)
    (hrunnable : s.exchange.runnable d = .ok plan)
    (hwatch : (s.exchange.opening .blocking d plan).watch c .blocking looks = some h) :
    s.history c [.run d] = .beat (if d = c then some (.begun .blocking) else none) [] ++ h := by
  have hpresent : ∃ call, s.exchange.present? d = some call := by
    obtain ⟨call, hcall, hhere, -⟩ := Exchange.exists_of_runnable hrunnable
    unfold Exchange.present?
    rw [hcall]
    exact ⟨call, if_pos hhere⟩
  obtain ⟨call, hpresent⟩ := hpresent
  show s.ifPresent d (s.exchange.runHistory c .blocking d) ++ [] = _
  unfold ifPresent Exchange.runHistory
  rw [List.append_nil, hpresent, hrunnable]
  dsimp only [Option.elim]
  rw [Scene.history_of_watch hwatch]

end Session

section Noted

variable {x y z : Exchange} {s t : Scene} {c d : CallId} {manner : Manner}

namespace Exchange

lemma since_of_journal {new : List Entry} (h : y.journal = new ++ x.journal) :
    x.since y = new.reverse := by
  have hlength : (new ++ x.journal).length - x.journal.length = new.length := by
    rw [List.length_append, Nat.add_sub_cancel]
  unfold since
  rw [h, hlength, List.take_left]

lemma since_trans (hxy : x.journal <:+ y.journal) (hyz : y.journal <:+ z.journal) :
    x.since z = x.since y ++ y.since z := by
  obtain ⟨new, hnew⟩ := hxy
  obtain ⟨newer, hnewer⟩ := hyz
  have hboth : z.journal = (newer ++ new) ++ x.journal := by
    rw [List.append_assoc, hnew, hnewer]
  rw [since_of_journal hboth, since_of_journal hnew.symm, since_of_journal hnewer.symm,
    List.reverse_append]

lemma news_trans (hxy : x.journal <:+ y.journal) (hyz : y.journal <:+ z.journal) :
    x.news c z = x.news c y ++ y.news c z := by
  unfold news
  rw [since_trans hxy hyz, List.filterMap_append]

lemma news_of_journal (h : y.journal = x.journal) : x.news c y = [] := by
  have hnothing : y.journal = [] ++ x.journal := h
  unfold news
  rw [since_of_journal hnothing]
  rfl

/-- The journal is only ever continued. -/
lemma isCarried_journal :
    IsCarried (fun _ => True) (fun _ => True) fun x y => x.journal <:+ y.journal where
  same _ hjournal := hjournal ▸ List.suffix_rfl
  trans := List.IsSuffix.trans
  note x entry _ := List.suffix_cons entry x.journal
  tell x c notice _ _ := by
    cases hcall : x.call? c with
    | none =>
      rw [tell_of_unknown hcall]
    | some call =>
      obtain ⟨place, -, hjournal⟩ := journal_tell hcall notice
      rw [hjournal]
      exact List.suffix_cons _ _
  start x c _ := by
    unfold Exchange.start
    split
    · exact List.suffix_rfl
    · exact List.suffix_rfl
  change _ _ _ _ _ := List.suffix_rfl
  perform x deed c := by
    have hdispose (y : Exchange) : y.journal <:+ (y.dispose c).2.journal := by
      cases hcall : y.call? c with
      | none =>
        rw [dispose_of_unknown hcall]
      | some call =>
        cases hlive : call.handle.isDisposed with
        | true =>
          rw [dispose_of_isDisposed hcall hlive]
        | false =>
          rw [dispose_of_live hcall hlive]
          have hknown : (y.modify c ({ · with handle := call.handle.dispose.2 })).call? c =
              some call.disposed := by
            exact call?_modify_of_known hcall _
          obtain ⟨place, -, hjournal⟩ := journal_tell hknown { kind := .handleDisposed }
          rw [hjournal]
          exact List.suffix_cons _ _
    rcases perform_cases x deed c with hsame | hdisposed | ⟨call, -, -, hdropped⟩
    · rw [hsame]
    · rw [hdisposed]
      exact hdispose x
    · rw [hdropped]
      exact hdispose (x.setPresence c .gone)

end Exchange

lemma Manner.journal_close (manner : Manner) (x : Exchange) (c : CallId) :
    x.journal <:+ (manner.close x c).journal := by
  cases manner with
  | blocking => exact List.suffix_rfl
  | asynchronous => exact Exchange.isCarried_journal.perform x .dispose c

namespace Scene

open Exchange

lemma journal_step (hstep : s.step = some t) : s.exchange.journal <:+ t.exchange.journal := by
  rcases step_cases isCarried_journal trivial (fun _ _ _ _ => trivial) hstep with
    ⟨-, -, hgrows⟩ | ⟨target, plan, asker, -, -, rfl⟩ | ⟨d, how, asker, askers, -, -, rfl⟩
  · exact hgrows
  · exact List.suffix_rfl
  · unfold Asker.resume
    split
    · exact List.suffix_rfl
    · exact List.suffix_cons _ _

lemma journal_reaches (hreaches : Reaches step s t) :
    s.exchange.journal <:+ t.exchange.journal := by
  induction hreaches with
  | refl => exact List.suffix_rfl
  | tail _ hstep ih => exact ih.trans (journal_step hstep)

end Scene

namespace Exchange

lemma filter_news : (x.news c y).filter Reaction.isNoted = x.news c y := by
  apply List.filter_eq_self.mpr
  intro reaction hreaction
  obtain ⟨entry, -, hentry⟩ := List.mem_filterMap.mp hreaction
  exact Entry.isNoted_of_reaction? hentry

lemma filter_turns : (x.turns c y).filter Reaction.isNoted = [] := by
  unfold turns
  split
  · split <;> rfl
  · rfl

lemma noted_beat : (x.beat c y).noted = x.news c y := by
  unfold beat
  rw [History.noted_beat, List.filter_append, filter_turns, filter_news, List.nil_append]

end Exchange

namespace Scene

open Exchange

lemma noted_beat : (s.beat c t).noted = s.exchange.news c t.exchange := by
  have hsilent : (s.task.silent c s.exchange).filter Reaction.isNoted = [] := by
    unfold Task.silent
    split
    · split
      · cases s.exchange.call? c with
        | none => rfl
        | some call =>
          unfold Option.elim Course.silent
          dsimp only
          split
          · split <;> rfl
          · rfl
          · rfl
      · rfl
    · rfl
    · rfl
  have houtcome : (t.task.outcome c).filter Reaction.isNoted = [] := by
    unfold Task.outcome
    split
    · split <;> rfl
    · rfl
    · rfl
  unfold beat
  rw [History.noted_beat]
  simp only [List.filter_append, filter_turns, filter_news, hsilent, houtcome, List.nil_append,
    List.append_nil]

/-- Of what happens in a run nothing is missing that the journal tells. -/
theorem noted_history (hreaches : Reaches step s t) (hover : t.step = none) :
    (s.history c manner).noted = s.exchange.news c (manner.close t.exchange t.task.call) := by
  have hclose := manner.journal_close t.exchange t.task.call
  induction hreaches using ReflTransGen.head_induction_on with
  | refl =>
    rw [history_of_none hover]
    exact Exchange.noted_beat
  | head hstep hrest ih =>
    rw [history_of_step hstep, History.noted_append, noted_beat, ih]
    exact (news_trans (journal_step hstep) ((journal_reaches hrest).trans hclose)).symm

end Scene

namespace Exchange

/-- A run from its beginning to its end. -/
lemma noted_runHistory {plan : Plan} (hrunnable : x.runnable d = .ok plan) {how : Except Halt Unit}
    (hreaches : Reaches Scene.step (x.opening manner d plan) ⟨.ended d how, [], y⟩) :
    (x.runHistory c manner d).noted = x.news c (manner.close y d) := by
  unfold runHistory
  rw [hrunnable]
  dsimp only
  rw [History.noted_append, History.noted_beat, List.filter_nil, List.nil_append,
    Scene.noted_history hreaches rfl]
  rfl

lemma noted_runHistory_run : (x.runHistory c .blocking d).noted = x.news c (x.run d).2 := by
  cases hrunnable : x.runnable d with
  | error reply =>
    unfold runHistory
    rw [run_of_error hrunnable, hrunnable]
    exact (news_of_journal rfl).symm
  | ok plan =>
    obtain ⟨how, y, hran, hleads⟩ := leadsTo_run hrunnable
    rw [noted_runHistory hrunnable hleads.reaches, hran]
    rfl

lemma noted_runHistory_runAsync :
    (x.runHistory c .asynchronous d).noted = x.news c (x.runAsync d).2 := by
  cases hrunnable : x.runnable d with
  | error reply =>
    unfold runHistory
    rw [runAsync_of_error hrunnable, hrunnable]
    exact (news_of_journal rfl).symm
  | ok plan =>
    obtain ⟨how, y, hran, hleads⟩ := leadsTo_runAsync hrunnable
    rw [noted_runHistory hrunnable hleads.reaches, hran]
    rfl

lemma isKept_journal : IsKept fun x y => x.journal <:+ y.journal where
  same _ hjournal := hjournal ▸ List.suffix_rfl
  trans := List.IsSuffix.trans
  perform := isCarried_journal.perform
  run x d := by
    cases hrunnable : x.runnable d with
    | error reply =>
      rw [run_of_error hrunnable]
    | ok plan =>
      obtain ⟨how, y, hran, hleads⟩ := leadsTo_run hrunnable
      rw [hran]
      exact Scene.journal_reaches hleads.reaches
  runAsync x d := by
    cases hrunnable : x.runnable d with
    | error reply =>
      rw [runAsync_of_error hrunnable]
    | ok plan =>
      obtain ⟨how, y, hran, hleads⟩ := leadsTo_runAsync hrunnable
      have hran' : x.journal <:+ y.journal := Scene.journal_reaches hleads.reaches
      rw [hran]
      exact hran'.trans (Manner.asynchronous.journal_close y d)

end Exchange

namespace Session

open Exchange

variable {s : Session} {command : Command}

lemma noted_ifPresent {h : History} {f : Call → Answer × Session}
    (hnoted : ∀ call, h.noted = s.exchange.news c (f call).2.exchange) :
    (s.ifPresent d h).noted = s.exchange.news c (s.onCall d f).2.exchange := by
  unfold ifPresent onCall
  cases s.exchange.present? d with
  | none => exact (news_of_journal rfl).symm
  | some call => exact hnoted call

/-- An alarm that goes off after the run is heard of. -/
lemma journal_runWatched (d : CallId) (n : Nat) (x : Exchange) :
    ((underWatch d n x).run d).2.journal <:+ (runWatched d n x).2.journal := by
  rcases runWatched_cases d n x with hquiet | ⟨nanos, hrang⟩
  · rw [hquiet]
  · rw [hrang]
    exact isKept_journal.elapse _ nanos

lemma journal_spawn (d : CallId) (millis : Nat) (x : Exchange) :
    (runTimed d (underTimer d (millis + 1) x)).2.journal <:+
      (spawn d (some (millis + 1)) x).2.journal := by
  rcases spawn_cases d millis x with hquiet | ⟨timer, alarm, hrang⟩
  · rw [hquiet]
  · rw [hrang]
    exact isKept_journal.ring { (runTimed d (underTimer d (millis + 1) x)).2 with timer } alarm

/-- Of what happens to a call during a command nothing is missing that the journal tells. -/
theorem noted_during (c : CallId) (s : Session) (command : Command) :
    (s.during c command).noted = s.exchange.news c (s.execute command).2.exchange := by
  cases command with
  | run d =>
    unfold during ifPresent execute
    dsimp only
    cases s.exchange.present? d with
    | none => exact (news_of_journal rfl).symm
    | some call => exact noted_runHistory_run
  | runWatched d n =>
    refine noted_ifPresent fun _ => ?_
    rw [History.noted_append, noted_beat, noted_runHistory_run]
    exact (news_trans (isKept_journal.run (underWatch d n s.exchange) d)
      (journal_runWatched d n s.exchange)).symm
  | runAsync d => exact noted_ifPresent fun _ => noted_runHistory_runAsync
  | spawn d disposeAfter =>
    cases disposeAfter with
    | none => exact noted_ifPresent fun _ => noted_runHistory_runAsync
    | some millis =>
      cases millis with
      | zero =>
        refine noted_ifPresent fun _ => ?_
        rw [History.noted_append, noted_beat, timedHistory, noted_runHistory_runAsync]
        exact (news_trans (isCarried_journal.perform s.exchange .dispose d)
          (isKept_journal.runTimed _ d)).symm
      | succ millis =>
        refine noted_ifPresent fun _ => ?_
        rw [History.noted_append, noted_beat, timedHistory, noted_runHistory_runAsync]
        exact (news_trans (isKept_journal.runTimed (underTimer d (millis + 1) s.exchange) d)
          (journal_spawn d millis s.exchange)).symm
  | runUnstaffed d => exact noted_ifPresent fun _ => noted_runHistory_runAsync
  | close | dispose | isSignalled | info | debug | subscribe | unsubscribe | drop =>
    exact noted_beat

/-- Of what happens to a call nothing is missing that can be seen of it. -/
theorem noted_history (c : CallId) (s : Session) (commands : List Command) :
    (s.history c commands).noted =
      ((s.steps commands).1.flatMap View.entries).filterMap (Entry.reaction? c) := by
  induction commands generalizing s with
  | nil => rfl
  | cons command rest ih =>
    have hseen : (s.step command).1.entries = s.exchange.since (s.execute command).2.exchange := rfl
    have hsteps : (s.steps (command :: rest)).1 =
        (s.step command).1 :: ((s.step command).2.steps rest).1 := rfl
    rw [hsteps, List.flatMap_cons, List.filterMap_append, hseen, history, History.noted_append,
      noted_during, ih]
    rfl

end Session

end Noted

end Redial
