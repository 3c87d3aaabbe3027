import Redial.Proofs.Bystanders
import Redial.Proofs.Erasures
import Redial.Proofs.Pauses

/-!
# Calls among others live as calls on their own

Whatever is going on around a call, it goes through the same as the call on its own would that is
told what the call meets with. This is shown step by step. A step in the run of the call itself is
one of the call on its own. A step of anything else is none, unless it disposes the handle of the
call or runs it.
-/

namespace Redial

open StateTransition Relation

variable {c d : CallId}

/-- Without its user code a plan steers the same course. -/
lemma Plan.course_bare (plan : Plan) (manner : Manner) :
    plan.bare.course manner = plan.course manner := by
  have hsteers : plan.bare.Steers plan := ⟨rfl, rfl, rfl, Option.isSome_map, rfl⟩
  exact hsteers.course_eq manner

/-- User code at work, as it looks from outside. -/
def Sequel.stage {α : Type} (sequel : Sequel α) (c : CallId) : Stage :=
  .coding sequel.rest fun value => ((sequel.entry value).bind (Entry.reaction? c)).toList

def Sequel.IsPaced {α : Type} (sequel : Sequel α) : Prop := ∀ value, (sequel.rest value).Paced

/-- The task of a call is what the call on its own is at, on whatever clock. -/
def Task.Matches (c : CallId) (now : Nat) (u : Solo) : Task → Prop
  | run _ course => ∃ course', u.stage = .running course' ∧ course.Alike now u.clock course'
  | code _ _ _ sequel => u.stage = sequel.stage c ∧ sequel.IsPaced
  | ended .. => u.stage = .ended

/-- User code in the task notes nothing of other calls. -/
def Task.IsSigned : Task → Prop
  | code _ d _ sequel => sequel.IsSigned d
  | run .. | ended .. => True

namespace Scene

/-- What holds at every step. -/
structure Peaceful (s : Scene) : Prop where
  orderly : s.Orderly
  task : s.task.IsSigned
  askers : ∀ asker ∈ s.askers, asker.sequel.IsSigned asker.call

/-- Call `c` stands where the call on its own does. -/
structure Shows (c : CallId) (s : Scene) (u : Solo) : Prop where
  known : s.exchange.bare? c = some u.call
  own : s.task.call = c → s.task.Matches c s.exchange.clock u
  waiting : ∀ asker ∈ s.askers, asker.call = c →
    u.stage = asker.sequel.stage c ∧ asker.sequel.IsPaced
  resting : c ∉ s.workers → u.stage = .resting

end Scene

lemma stage_ofPredicate (c : CallId) (fault : Fault) (rest : Bool → Course) :
    (Sequel.ofPredicate c fault rest).stage c =
      .coding rest fun answer => [.consulted fault answer] := by
  have hnoted (answer : Bool) : Entry.reaction? c (.consulted c fault answer) =
      some (.consulted fault answer) := if_pos rfl
  have hall : (fun answer => (((Sequel.ofPredicate c fault rest).entry answer).bind
      (Entry.reaction? c)).toList) = fun answer => [.consulted fault answer] := by
    funext answer
    exact congrArg Option.toList (hnoted answer)
  unfold Sequel.stage
  rw [hall]
  rfl

namespace Exchange

variable {x y : Exchange} {call after : Call}

lemma turns_of_known (hcall : x.call? c = some call) (hafter : y.call? c = some after) :
    x.turns c y =
      if call.handle.state = after.handle.state then [] else [.turned after.handle.state] := by
  unfold turns
  rw [hcall, hafter]

lemma turns_of_handle (hcall : x.call? c = some call) (hafter : y.call? c = some after)
    (hhandle : after.handle = call.handle) : x.turns c y = [] := by
  rw [turns_of_known hcall hafter, hhandle, if_pos rfl]

lemma turns_of_calls (hcalls : y.calls = x.calls) : x.turns c y = [] := by
  unfold turns
  rw [call?_congr hcalls]
  split
  case h_1 before after hbefore hafter =>
    rw [hbefore] at hafter
    cases hafter
    exact if_pos rfl
  case h_2 => rfl

lemma journal_noteAny (x : Exchange) (noted : Option Entry) :
    (x.noteAny noted).journal = noted.toList ++ x.journal := by
  cases noted with
  | none | some => rfl

lemma calls_noteAny (x : Exchange) (noted : Option Entry) : (x.noteAny noted).calls = x.calls := by
  cases noted with
  | none | some => rfl

lemma news_noteAny (x : Exchange) (noted : Option Entry) :
    x.news c (x.noteAny noted) = (noted.bind (Entry.reaction? c)).toList := by
  unfold news
  rw [since_of_journal (journal_noteAny x noted)]
  cases noted with
  | none => rfl
  | some entry =>
    show [entry].filterMap (Entry.reaction? c) = (entry.reaction? c).toList
    cases hentry : entry.reaction? c with
    | none => exact List.filterMap_cons_none hentry
    | some reaction => exact List.filterMap_cons_some hentry

lemma struck_of_handle (hcall : x.call? c = some call) (hafter : y.call? c = some after)
    (hdisposed : after.handle.isDisposed = call.handle.isDisposed) : x.struck c y = none := by
  unfold struck isDisposed
  rw [hcall, hafter, Option.any_some, Option.any_some, hdisposed]
  cases call.handle.isDisposed <;> rfl

lemma stepIntoBody_of_known (hcall : x.call? c = some call) (rest : Output → Course) :
    x.stepIntoBody c rest = (.code .body c (call.plan.body (call.bodyCalls + 1)) { rest },
      (x.modify c ({ · with bodyCalls := call.bodyCalls + 1 })).note
        (.invoked c (call.bodyCalls + 1))) := by
  unfold stepIntoBody
  rw [hcall]

lemma stepIntoPredicate_of_none (hcall : x.call? c = some call)
    (hpredicate : call.plan.rule.predicate = none) (fault : Fault) (rest : Bool → Course) :
    x.stepIntoPredicate c fault rest = (.run c (rest true), x) := by
  unfold stepIntoPredicate
  rw [hcall]
  dsimp only
  rw [hpredicate]

lemma stepIntoPredicate_of_some {predicate : Retry.Predicate} (hcall : x.call? c = some call)
    (hpredicate : call.plan.rule.predicate = some predicate) (fault : Fault)
    (rest : Bool → Course) : x.stepIntoPredicate c fault rest =
      (.code .predicate c (predicate (call.predicateCalls + 1) fault) (.ofPredicate c fault rest),
        x.modify c ({ · with predicateCalls := call.predicateCalls + 1 })) := by
  unfold stepIntoPredicate
  rw [hcall]
  dsimp only
  rw [hpredicate]

lemma stepIntoCallback_of_none {verdict : Verdict} (hcall : x.call? c = some call)
    (hnone : call.callback? verdict = none) (rest : Course) :
    x.stepIntoCallback c verdict rest = (.run c rest, x) := by
  unfold stepIntoCallback
  rw [hcall]
  cases verdict with
  | success | failure =>
    dsimp only
    rw [Option.map_eq_none_iff.mp hnone]

lemma stepIntoCallback_of_some {verdict : Verdict} {script : Script Unit}
    (hcall : x.call? c = some call) (hsome : call.callback? verdict = some script)
    (rest : Course) : ∃ role, x.stepIntoCallback c verdict rest =
      (.code role c script { rest := fun _ => rest },
        (x.modify c (·.useCallback verdict)).note (.delivered c verdict)) := by
  unfold stepIntoCallback
  rw [hcall]
  cases verdict with
  | success | failure =>
    obtain ⟨callback, hcallback, rfl⟩ := Option.map_eq_some_iff.mp hsome
    dsimp only
    rw [hcallback]
    exact ⟨_, rfl⟩

lemma popVerdict_of_nil (hcall : x.call? c = some call) (hqueue : call.outbox.queue = []) :
    x.popVerdict c = (none, x) := by
  unfold popVerdict Delivery.Outbox.pop
  rw [hcall, Option.bind_some, hqueue]

lemma popVerdict_of_cons {verdict : Verdict} {rest : List Verdict} (hcall : x.call? c = some call)
    (hqueue : call.outbox.queue = verdict :: rest) : x.popVerdict c =
      (some verdict, x.modify c ({ · with outbox := { call.outbox with queue := rest } })) := by
  unfold popVerdict Delivery.Outbox.pop
  rw [hcall, Option.bind_some, hqueue]

lemma bare?_of_call (hcall : x.call? c = some call) : x.bare? c = some call.bare := by
  unfold bare?
  rw [hcall]
  rfl

end Exchange

namespace Scene

open Exchange

section Own

variable {x y : Exchange} {askers : List Asker} {course course' : Course} {task : Task}
  {call after : Call} {new : List Entry} {did : List Reaction} {u v : Solo}

/-- What happens to a call by a step of its own run. Its handle is not disposed by that, except
where it is what the call meets with. -/
lemma beat_run (hcall : x.call? c = some call)
    (hstruck : (course.felt c x).or (x.struck c y) = course.felt c x) :
    beat c ⟨.run c course, askers, x⟩ ⟨task, askers, y⟩ =
      .beat (course.felt c x) (x.turns c y ++ x.news c y ++ course.silent call ++
        task.outcome c) := by
  have hentered : entered c ⟨.run c course, askers, x⟩ ⟨task, askers, y⟩ = none :=
    if_neg fun hlonger => Nat.lt_irrefl _ hlonger.1
  have hfelt : Task.felt c x (.run c course) = course.felt c x := if_pos rfl
  have hsilent : Task.silent c x (.run c course) = course.silent call := by
    show (if c = c then (x.call? c).elim [] _ else []) = _
    rw [if_pos rfl, hcall]
    rfl
  unfold beat
  rw [hentered, Option.none_or, hfelt, hstruck, hsilent]

/-- The step of a run leads where the call on its own gets as well, and by the same reactions. -/
structure Follows (c : CallId) (s t : Scene) (felt : Option Stimulus) (u : Solo)
    (course' : Course) (did : List Reaction) (v : Solo) : Prop where
  follows : u.Follows felt did v course'
  beat : s.beat c t = .beat felt did
  known : t.exchange.bare? c = some v.call
  own : t.task.Matches c t.exchange.clock v

namespace Follows

/-- A step that notes nothing and leaves the handle alone. -/
lemma of_silent (hcall : x.call? c = some call) (hafter : y.call? c = some after)
    (hhandle : after.handle = call.handle) (hjournal : y.journal = x.journal)
    (hfollows : u.Follows (course.felt c x) did v course')
    (hdid : course.silent call ++ task.outcome c = did) (hbare : after.bare = v.call)
    (hown : task.Matches c y.clock v) :
    Follows c ⟨.run c course, askers, x⟩ ⟨task, askers, y⟩ (course.felt c x) u course' did v := by
  have hstruck := struck_of_handle hcall hafter (congrArg Handle.isDisposed hhandle)
  refine ⟨hfollows, ?_, (bare?_of_call hafter).trans (congrArg some hbare), hown⟩
  rw [beat_run hcall (by rw [hstruck, Option.or_none]), turns_of_handle hcall hafter hhandle,
    news_of_journal hjournal, ← hdid]
  rfl

/-- A step that notes something and leaves the handle alone. -/
lemma of_noted {entry : Entry} {reaction : Reaction} (hcall : x.call? c = some call)
    (hafter : y.call? c = some after) (hhandle : after.handle = call.handle)
    (hjournal : y.journal = entry :: x.journal) (hentry : entry.reaction = some (c, reaction))
    (hfollows : u.Follows (course.felt c x) did v course')
    (hdid : reaction :: course.silent call ++ task.outcome c = did) (hbare : after.bare = v.call)
    (hown : task.Matches c y.clock v) :
    Follows c ⟨.run c course, askers, x⟩ ⟨task, askers, y⟩ (course.felt c x) u course' did v := by
  have hcontinued : y.journal = [entry] ++ x.journal := hjournal
  have hnoted : entry.reaction? c = some reaction := by
    unfold Entry.reaction?
    rw [hentry, Option.bind_some]
    exact if_pos rfl
  have hnews : x.news c y = [reaction] := by
    unfold news
    rw [since_of_journal hcontinued, List.reverse_singleton, List.filterMap_cons_some hnoted]
    rfl
  have hstruck := struck_of_handle hcall hafter (congrArg Handle.isDisposed hhandle)
  refine ⟨hfollows, ?_, (bare?_of_call hafter).trans (congrArg some hbare), hown⟩
  rw [beat_run hcall (by rw [hstruck, Option.or_none]), turns_of_handle hcall hafter hhandle,
    hnews, ← hdid]
  rfl

end Follows

/-- Call `c` and the call on its own, with these courses before them, go on in the same way. -/
def GoesAlong (c : CallId) (askers : List Asker) (x : Exchange) (course : Course) (u : Solo)
    (course' : Course) : Prop :=
  ∃ did v, Follows c ⟨.run c course, askers, x⟩
    ⟨(x.stepRun c course).1, askers, (x.stepRun c course).2⟩ (course.felt c x) u course' did v

namespace GoesAlong

variable {clock : Nat} {stage : Stage} (hcall : x.call? c = some call)
include hcall

lemma start {next : Bool → Course} (h : ∀ won, (next won).Paced) :
    GoesAlong c askers x (.start next) ⟨call.bare, clock, stage⟩ (.start next) := by
  have hstart : x.start c =
      (call.handle.start.1, x.modify c ({ · with handle := call.handle.start.2 })) := by
    unfold Exchange.start
    rw [hcall]
  have hafter := call?_modify_of_known hcall ({ · with handle := call.handle.start.2 })
  have hturns : x.turns c (x.modify c ({ · with handle := call.handle.start.2 })) =
      if call.handle.start.1 then [.turned .running] else [] := by
    rw [turns_of_known hcall hafter]
    generalize call.handle = handle
    obtain ⟨state, signalled⟩ := handle
    cases state <;> rfl
  have hnews : x.news c (x.modify c ({ · with handle := call.handle.start.2 })) = [] :=
    news_of_journal rfl
  have hstruck := struck_of_handle hcall hafter (Handle.isDisposed_start _)
  unfold GoesAlong
  rw [stepRun, hstart]
  refine ⟨_, _, ⟨rfl, rfl⟩, ?_, bare?_of_call hafter, _, rfl, .same (h _)⟩
  rw [beat_run hcall (by rw [hstruck, Option.or_none]), hturns, hnews]
  simp only [Course.silent, Task.outcome, List.append_nil]
  rfl

/-- The answer is what the call on its own would be told. -/
lemma askDisposed {next next' : Bool → Course}
    (h : ∀ disposed, (next disposed).Alike x.clock clock (next' disposed)) :
    GoesAlong c askers x (.askDisposed next) ⟨call.bare, clock, stage⟩ (.askDisposed next') := by
  have hasked : x.isDisposed c = call.handle.isDisposed := by
    unfold isDisposed
    rw [hcall]
    rfl
  unfold GoesAlong
  rw [stepRun, hasked]
  exact ⟨_, _, .of_silent hcall hcall rfl rfl ⟨rfl, rfl⟩ rfl rfl ⟨_, rfl, h _⟩⟩

lemma report (notice : Notice) {next : Course} (h : next.Paced) :
    GoesAlong c askers x (.report notice next) ⟨call.bare, clock, stage⟩ (.report notice next) := by
  obtain ⟨place, hplace, hjournal⟩ := journal_tell hcall notice
  have hafter := (call?_tell x c notice c).trans hcall
  have htold : Reaction.told { notice with call := some call.plan.name } place.isSome =
      call.bare.tells notice := by
    rw [Call.tells_bare]
    unfold Call.tells
    rw [← hplace, Option.isSome_map]
  refine ⟨[call.bare.tells notice], _, .of_noted hcall hafter rfl hjournal rfl ⟨rfl, rfl⟩ ?_ rfl
    ⟨_, rfl, .same h⟩⟩
  rw [htold]
  rfl

lemma invoke {next : Output → Course} (h : ∀ output, (next output).Paced) :
    GoesAlong c askers x (.invoke next) ⟨call.bare, clock, stage⟩ (.invoke next) := by
  have hafter := call?_modify_of_known hcall ({ · with bodyCalls := call.bodyCalls + 1 })
  unfold GoesAlong
  rw [stepRun, stepIntoBody_of_known hcall]
  exact ⟨_, _, .of_noted hcall hafter rfl rfl rfl ⟨rfl, rfl⟩ rfl rfl ⟨rfl, h⟩⟩

lemma dispatch {next : Option Output → Course} (h : ∀ output, (next output).Paced) :
    GoesAlong c askers x (.dispatch next) ⟨call.bare, clock, stage⟩ (.dispatch next) := by
  have hafter := call?_modify_of_known hcall ({ · with bodyCalls := call.bodyCalls + 1 })
  unfold GoesAlong
  by_cases hstaffed : x.staffed
  · rw [stepRun, if_pos hstaffed, stepIntoBody_of_known hcall]
    exact ⟨_, _, .of_noted hcall hafter rfl rfl rfl ⟨x.staffed, rfl, (if_pos hstaffed).symm⟩ rfl rfl
      ⟨rfl, fun output => h output⟩⟩
  · rw [stepRun, if_neg hstaffed]
    exact ⟨_, _, .of_silent hcall hcall rfl rfl ⟨x.staffed, rfl, (if_neg hstaffed).symm⟩ rfl rfl
      ⟨_, rfl, .same (h none)⟩⟩

lemma consult (fault : Fault) {next : Bool → Course} (h : ∀ again, (next again).Paced) :
    GoesAlong c askers x (.consult fault next) ⟨call.bare, clock, stage⟩
      (.consult fault next) := by
  have hasks : call.bare.plan.rule.predicate.isSome = call.plan.rule.predicate.isSome :=
    Option.isSome_map
  unfold GoesAlong
  cases hpredicate : call.plan.rule.predicate with
  | none =>
    rw [hpredicate] at hasks
    rw [stepRun, stepIntoPredicate_of_none hcall hpredicate]
    refine ⟨_, _, .of_silent hcall hcall rfl rfl
      ⟨rfl, (if_neg (ne_true_of_eq_false hasks)).symm⟩ ?_ rfl ⟨_, rfl, .same (h true)⟩⟩
    rw [Course.silent, hpredicate]
    rfl
  | some predicate =>
    have hafter := call?_modify_of_known hcall
      ({ · with predicateCalls := call.predicateCalls + 1 })
    rw [hpredicate] at hasks
    rw [stepRun, stepIntoPredicate_of_some hcall hpredicate]
    refine ⟨_, _, .of_silent hcall hafter rfl rfl ⟨rfl, (if_pos hasks).symm⟩ ?_ rfl
      ⟨(stage_ofPredicate c fault next).symm, h⟩⟩
    rw [Course.silent, hpredicate]
    rfl

/-- A pause begins, on a clock that is set for it. -/
lemma pause (delay : Duration) {next : Course} (h : next.Paced) (hcalm : next.isPanic = false) :
    GoesAlong c askers x (.pause delay next) ⟨call.bare, clock, stage⟩ (.pause delay next) := by
  have hopens := Course.opensPause_setOut delay next
  let inTime := !(Course.setOut delay next x.clock).isPanic
  have hfelt : (Course.readClock (Course.setOut delay next)).felt c x = some (.timed inTime) :=
    if_pos hopens
  let out : Solo := ⟨call.bare, if inTime then 0 else Course.clockLimit, stage⟩
  have hfollows : Solo.Follows ⟨call.bare, clock, stage⟩ (some (.timed inTime)) []
      (out.goTo (.running (Course.setOut delay next out.clock)))
      (.readClock (Course.setOut delay next)) := by
    simp only [Solo.Follows, hopens, if_true]
    exact ⟨inTime, rfl, rfl⟩
  rw [← hfelt] at hfollows
  exact ⟨_, _, .of_silent hcall hcall rfl rfl hfollows rfl rfl
    ⟨_, rfl, .setOut h hcalm x.clock delay⟩⟩

/-- The clock is read within a pause. -/
lemma look {next : Course} (h : next.Paced) (hcalm : next.isPanic = false) (left looks : Nat) :
    GoesAlong c askers x (.readClock (Course.look (x.clock + left) next looks))
      ⟨call.bare, clock, stage⟩ (.readClock (Course.look (clock + left) next looks)) := by
  have hcloses (deadline : Nat) := Course.opensPause_look hcalm deadline looks
  have hfelt : (Course.readClock (Course.look (x.clock + left) next looks)).felt c x = none :=
    if_neg (ne_true_of_eq_false (hcloses _))
  let v : Solo := ⟨call.bare, clock, .running (Course.look (clock + left) next looks clock)⟩
  have hfollows : Solo.Follows ⟨call.bare, clock, stage⟩ none [] v
      (.readClock (Course.look (clock + left) next looks)) := by
    simp only [Solo.Follows, hcloses, Bool.false_eq_true, if_false]
    exact ⟨trivial, rfl⟩
  rw [← hfelt] at hfollows
  exact ⟨_, _, .of_silent hcall hcall rfl rfl hfollows rfl rfl
    ⟨_, rfl, .look h hcalm x.clock clock left looks⟩⟩

/-- On either clock the same time passes, while others may dispose the handle. -/
lemma sleep {nanos : Nat} {next next' : Course}
    (h : next.Alike (x.clock + nanos) (clock + nanos) next') :
    GoesAlong c askers x (.sleep nanos next) ⟨call.bare, clock, stage⟩ (.sleep nanos next') := by
  obtain ⟨hdid, hafter⟩ := (Passes.elapse x nanos).disturbed (bare?_of_call hcall)
  refine ⟨_, _, ⟨_, rfl, rfl⟩, ?_, hafter, next', rfl, ?_⟩
  · rw [stepRun, beat_run hcall rfl, hdid, List.append_assoc]
    rfl
  · rw [stepRun, clock_elapse]
    exact h

/-- The time of a timer is nobody's concern, but others may dispose the handle. -/
lemma await (delay : Duration) {next : Course} (h : next.Paced) :
    GoesAlong c askers x (.await delay next) ⟨call.bare, clock, stage⟩ (.await delay next) := by
  have hpasses : Passes c x (x.wait c delay) := .wait x c delay
  obtain ⟨hdid, hafter⟩ := hpasses.disturbed (bare?_of_call hcall)
  have hnoted : (x.wait c delay).news c ((x.wait c delay).noteAny (some (.waited c delay))) =
      [.waited delay] := by
    rw [news_noteAny]
    exact congrArg Option.toList (if_pos rfl)
  have hnews : x.news c ((x.wait c delay).note (.waited c delay)) =
      x.news c (x.wait c delay) ++ [.waited delay] := by
    rw [news_trans hpasses.journal (List.suffix_cons _ _)]
    exact congrArg _ hnoted
  refine ⟨_, _, ⟨_, rfl, rfl⟩, ?_, hafter, next, rfl, .same h⟩
  rw [stepRun, beat_run hcall rfl, hnews]
  show History.beat _ (x.turns c (x.wait c delay) ++ _ ++ [] ++ []) = _
  rw [List.append_nil, List.append_nil, ← List.append_assoc, hdid]
  rfl

lemma pop {next : Option Verdict → Course} (h : ∀ verdict, (next verdict).Paced) :
    GoesAlong c askers x (.pop next) ⟨call.bare, clock, stage⟩ (.pop next) := by
  unfold GoesAlong
  rw [stepRun]
  cases hqueue : call.outbox.queue with
  | nil =>
    have hcarry := Solo.carry_pop_nil (u := ⟨call.bare, clock, stage⟩) hqueue next
    rw [popVerdict_of_nil hcall hqueue]
    exact ⟨_, _, .of_silent hcall hcall rfl rfl ⟨rfl, hcarry.symm⟩ rfl rfl
      ⟨_, rfl, .same (h none)⟩⟩
  | cons verdict rest =>
    have hcarry := Solo.carry_pop_cons (u := ⟨call.bare, clock, stage⟩) hqueue next
    have hafter := call?_modify_of_known hcall
      ({ · with outbox := { call.outbox with queue := rest } })
    rw [popVerdict_of_cons hcall hqueue]
    exact ⟨_, _, .of_silent hcall hafter rfl rfl ⟨rfl, hcarry.symm⟩ rfl rfl
      ⟨_, rfl, .same (h _)⟩⟩

lemma callback (verdict : Verdict) {next : Course} (h : next.Paced) :
    GoesAlong c askers x (.callback verdict next) ⟨call.bare, clock, stage⟩
      (.callback verdict next) := by
  have hhas := call.isSome_callback?_bare verdict
  unfold GoesAlong
  rw [stepRun]
  cases hcallback : call.callback? verdict with
  | none =>
    rw [hcallback] at hhas
    rw [stepIntoCallback_of_none hcall hcallback]
    exact ⟨_, _, .of_silent hcall hcall rfl rfl
      ⟨rfl, (if_neg (ne_true_of_eq_false hhas)).symm⟩ rfl rfl ⟨_, rfl, .same h⟩⟩
  | some script =>
    have hafter := call?_modify_of_known hcall (·.useCallback verdict)
    have hhandle : (call.useCallback verdict).handle = call.handle := by cases verdict <;> rfl
    obtain ⟨role, hinto⟩ := stepIntoCallback_of_some hcall hcallback next
    rw [hcallback] at hhas
    rw [hinto]
    exact ⟨_, _, .of_noted hcall hafter hhandle rfl rfl ⟨rfl, (if_pos hhas).symm⟩ rfl
      (call.useCallback_bare verdict).symm ⟨rfl, fun _ => h⟩⟩

end GoesAlong

/-- Every step of the run of a call is one of the call on its own. -/
theorem goesAlong_of_alike (hs : Orderly ⟨.run c course, askers, x⟩)
    (hknown : x.bare? c = some u.call) (halike : course.Alike x.clock u.clock course') :
    GoesAlong c askers x course u course' := by
  obtain ⟨call, hcall, hbare⟩ := Option.map_eq_some_iff.mp hknown
  obtain ⟨own, clock, stage⟩ := u
  obtain rfl : call.bare = own := hbare
  cases halike with
  | same hpaced =>
    cases hpaced with
    | finished | panics =>
      refine ⟨_, _, .of_silent hcall hcall rfl rfl ⟨rfl, rfl⟩ ?_ rfl rfl⟩
      exact if_pos rfl
    | start h => exact .start hcall h
    | askDisposed h => exact .askDisposed hcall fun disposed => .same (h disposed)
    | report notice h => exact .report hcall notice h
    | invoke h => exact .invoke hcall h
    | dispatch h => exact .dispatch hcall h
    | consult fault h => exact .consult hcall fault h
    | pause delay h hcalm => exact .pause hcall delay h hcalm
    | await delay h => exact .await hcall delay h
    | @push verdict next h =>
      obtain ⟨known, hcall', hopen, hempty⟩ := (hs.delivers.push c verdict next rfl).1
      obtain rfl : call = known := Option.some.inj (hcall.symm.trans hcall')
      have hafter := call?_modify_of_known hcall ({ · with outbox := call.outbox.append verdict })
      unfold GoesAlong
      rw [stepRun, pushVerdict_of_isOpen hcall hopen hempty]
      exact ⟨_, _, .of_silent hcall hafter rfl rfl ⟨rfl, rfl⟩ rfl rfl ⟨_, rfl, .same (h _)⟩⟩
    | pop h => exact .pop hcall h
    | callback verdict h => exact .callback hcall verdict h
  | looking h hcalm left looks =>
    exact .askDisposed hcall fun disposed => .answer h hcalm x.clock clock left looks disposed
  | reading h hcalm left looks => exact .look hcall h hcalm left looks
  | sleeping h hcalm hleft looks =>
    exact .sleep hcall (.awake h hcalm x.clock clock hleft looks)

end Own

section Others

variable {s t : Scene} {u : Solo}

/-- What happens to a call by a step that is not its own is what the exchange shows. -/
lemma beat_of_other (hfelt : s.task.felt c s.exchange = none)
    (hsilent : s.task.silent c s.exchange = []) (hentered : entered c s t = none)
    (houtcome : t.task.outcome c = []) : s.beat c t = s.exchange.beat c t.exchange := by
  unfold beat Exchange.beat
  rw [hfelt, hsilent, hentered, houtcome, Option.none_or, Option.none_or, List.append_nil,
    List.append_nil]

lemma felt_of_ne {task : Task} (hother : task.call ≠ c) (x : Exchange) : task.felt c x = none := by
  cases task with
  | run d course => exact if_neg hother
  | code role d script sequel => exact if_neg hother
  | ended => rfl

lemma silent_of_ne {task : Task} (hother : task.call ≠ c) (x : Exchange) :
    task.silent c x = [] := by
  cases task with
  | run d course => exact if_neg hother
  | code | ended => rfl

lemma outcome_of_ne {task : Task} (hother : task.call ≠ c) : task.outcome c = [] := by
  cases task with
  | run | code => rfl
  | ended d how => exact if_neg hother

lemma entered_of_askers (haskers : t.askers.length ≤ s.askers.length) : entered c s t = none :=
  if_neg fun hentered => Nat.not_lt.mpr haskers hentered.1

lemma entered_of_ne (hother : t.task.call ≠ c) : entered c s t = none :=
  if_neg fun hentered => hother hentered.2

/-- If the call was left alone or disposed, it goes on with what it was at. -/
lemma Shows.exists_path_of_passes (h : s.Shows c u) (hidle : u.IsIdle)
    (hbeat : s.beat c t = s.exchange.beat c t.exchange) (hpasses : Passes c s.exchange t.exchange)
    (hown : t.task.call = c → ∀ v : Solo, v.stage = u.stage → t.task.Matches c t.exchange.clock v)
    (hwaiting : ∀ asker ∈ t.askers, asker.call = c →
      u.stage = asker.sequel.stage c ∧ asker.sequel.IsPaced)
    (hresting : c ∉ t.workers → u.stage = .resting) :
    ∃ v, u.Path (s.beat c t) v ∧ t.Shows c v := by
  obtain ⟨v, hpath, hknown, hstage⟩ := hpasses.exists_path h.known hidle
  rw [hbeat]
  refine ⟨v, hpath, hknown, fun hcall => hown hcall v hstage, ?_, ?_⟩
  · rw [hstage]
    exact hwaiting
  · rw [hstage]
    exact hresting

end Others

section Steps

variable {s t : Scene} {u : Solo}

lemma isSigned_of_silent {α : Type} (rest : α → Course) (d : CallId) :
    ({ rest } : Sequel α).IsSigned d := by
  intro value entry hnone
  cases hnone

/-- The user code that a run begins is signed. -/
lemma isSigned_stepRun (x : Exchange) (d : CallId) (course : Course) :
    (x.stepRun d course).1.IsSigned := by
  have hbody (rest : Output → Course) : (x.stepIntoBody d rest).1.IsSigned := by
    unfold stepIntoBody
    split
    · trivial
    · exact isSigned_of_silent rest d
  cases course with
  | invoke next => exact hbody next
  | dispatch next =>
    rw [stepRun]
    split
    · exact hbody _
    · trivial
  | consult fault next =>
    rw [stepRun]
    unfold stepIntoPredicate
    split
    · trivial
    · dsimp only
      split
      · trivial
      · rintro answer entry hentry other hother
        cases hentry
        exact if_neg (Ne.symm hother)
  | push verdict next =>
    rw [stepRun]
    split <;> trivial
  | callback verdict next =>
    rw [stepRun]
    unfold stepIntoCallback
    split
    · split
      · trivial
      · exact isSigned_of_silent _ d
    · split
      · trivial
      · exact isSigned_of_silent _ d
    · trivial
  | _ => trivial

theorem Peaceful.step (hs : s.Peaceful) (hstep : s.step = some t) : t.Peaceful := by
  have hsigned : t.task.IsSigned ∧ ∀ asker ∈ t.askers, asker.sequel.IsSigned asker.call := by
    obtain ⟨task, askers, x⟩ := s
    cases task with
    | run d course =>
      cases hstep
      exact ⟨isSigned_stepRun x d course, hs.askers⟩
    | code role d script sequel =>
      cases hstep
      cases script with
      | done value => exact ⟨trivial, hs.askers⟩
      | panic text => exact ⟨trivial, hs.askers⟩
      | act deed target next => exact ⟨hs.task, hs.askers⟩
      | run target next =>
        rw [stepCode]
        dsimp only
        split
        · split
          · exact ⟨hs.task, hs.askers⟩
          · refine ⟨trivial, fun asker hasker => ?_⟩
            rcases List.mem_cons.mp hasker with rfl | hasker
            · exact hs.task
            · exact hs.askers asker hasker
        · exact ⟨hs.task, hs.askers⟩
    | ended d how =>
      cases askers with
      | nil => cases hstep
      | cons asker askers =>
        cases hstep
        refine ⟨?_, fun other hother => hs.askers other (List.mem_cons_of_mem _ hother)⟩
        show (asker.resume d how x).1.IsSigned
        unfold Asker.resume
        split
        · trivial
        · exact hs.askers asker List.mem_cons_self
  exact ⟨hs.orderly.step hstep, hsigned.1, hsigned.2⟩

/-- While another call is at work, this one rests or its user code waits. -/
lemma Shows.isIdle (h : s.Shows c u) (hother : s.task.call ≠ c) : u.IsIdle := by
  by_cases hworker : c ∈ s.workers
  · obtain ⟨asker, hasker, hcall⟩ :=
      List.mem_map.mp ((List.mem_cons.mp hworker).resolve_left (Ne.symm hother))
    unfold Solo.IsIdle
    rw [(h.waiting asker hasker hcall).1]
    trivial
  · exact Solo.isIdle_of_resting (h.resting hworker)

/-- Another call is at work before the step and after it. -/
lemma Shows.exists_path_aside (h : s.Shows c u) (hother : s.task.call ≠ c)
    (hcall : t.task.call = s.task.call) (haskers : t.askers = s.askers)
    (hpasses : Passes c s.exchange t.exchange) : ∃ v, u.Path (s.beat c t) v ∧ t.Shows c v := by
  have hstill : t.task.call ≠ c := hcall ▸ hother
  have hbeat := beat_of_other (felt_of_ne hother _) (silent_of_ne hother _) (entered_of_ne hstill)
    (outcome_of_ne hstill)
  refine h.exists_path_of_passes (h.isIdle hother) hbeat hpasses ?_ ?_ ?_
  · exact fun hown => absurd hown hstill
  · rw [haskers]
    exact h.waiting
  · unfold workers
    rw [hcall, haskers]
    exact h.resting

/-- While user code is at work, whosever it is. -/
lemma Shows.isIdle_of_code {α : Type} {role : Role} {script : Script α} {sequel : Sequel α}
    (h : s.Shows c u) (htask : s.task = .code role d script sequel) : u.IsIdle := by
  by_cases hcall : s.task.call = c
  · have hmatches := h.own hcall
    rw [htask] at hmatches
    unfold Solo.IsIdle
    rw [hmatches.1]
    trivial
  · exact h.isIdle hcall

/-- The call itself is at work. -/
lemma Shows.of_own (hs : s.Orderly) (hcall : s.task.call = c)
    (hknown : s.exchange.bare? c = some u.call) (hmatches : s.task.Matches c s.exchange.clock u) :
    s.Shows c u := by
  have hnew : c ∉ s.askers.map Asker.call := hcall ▸ (List.nodup_cons.mp hs.nodup).1
  refine ⟨hknown, fun _ => hmatches, fun asker hasker hasking => ?_, fun hnone => ?_⟩
  · exact absurd (List.mem_map.mpr ⟨asker, hasker, hasking⟩) hnew
  · exact absurd (hcall ▸ List.mem_cons_self) hnone

/-- A run of the call begins. -/
lemma Shows.of_begun {x : Exchange} {askers : List Asker} {manner : Manner} {plan : Plan}
    {presence : Presence}
    (hs : Orderly ⟨.run c (plan.course manner), askers, x.setPresence c presence⟩)
    (hknown : x.bare? c = some u.call) (hrunnable : x.runnable c = .ok plan) :
    Shows c ⟨.run c (plan.course manner), askers, x.setPresence c presence⟩
      (u.goTo (.running (u.call.plan.course manner))) := by
  have hsame : u.call.plan.course manner = plan.course manner := by
    obtain ⟨call, hcall, -, rfl⟩ := exists_of_runnable hrunnable
    have hbare := Option.some.inj ((bare?_of_call hcall).symm.trans hknown)
    rw [← hbare]
    exact call.plan.course_bare manner
  refine .of_own hs rfl ((bare?_setPresence x c presence).trans hknown) ⟨_, rfl, ?_⟩
  rw [hsame]
  exact .same (Course.paced_course plan manner)

section Code

variable {α : Type} {role : Role} {sequel : Sequel α} {askers : List Asker} {x : Exchange}

/-- User code comes to a value. -/
lemma exists_path_done {value : α} (hs : Peaceful ⟨.code role d (.done value) sequel, askers, x⟩)
    (h : Shows c ⟨.code role d (.done value) sequel, askers, x⟩ u) :
    ∃ v, u.Path (beat c ⟨.code role d (.done value) sequel, askers, x⟩
        (stepCode role d sequel askers x (.done value))) v ∧
      Shows c (stepCode role d sequel askers x (.done value)) v := by
  have hnext := hs.orderly.step (s := ⟨.code role d (.done value) sequel, askers, x⟩) rfl
  by_cases hdc : d = c
  · subst hdc
    obtain ⟨hstage, hpaced⟩ := h.own rfl
    have hcalls := calls_noteAny x (sequel.entry value)
    have hfelt : Task.felt d x (.code role d (.done value) sequel) = some (.returned value) :=
      if_pos rfl
    have hbeat : beat d ⟨.code role d (.done value) sequel, askers, x⟩
        (stepCode role d sequel askers x (.done value)) = .beat (some (.returned value))
          ((sequel.entry value).bind (Entry.reaction? d)).toList := by
      unfold beat
      rw [hfelt, Option.some_or]
      show History.beat _ (x.turns d (x.noteAny _) ++ x.news d (x.noteAny _) ++ [] ++ []) = _
      rw [turns_of_calls hcalls, news_noteAny, List.append_nil, List.append_nil, List.nil_append]
    have hstep : u.Step (some (.returned value))
        ((sequel.entry value).bind (Entry.reaction? d)).toList
        (u.goTo (.running (sequel.rest value))) := by
      unfold Solo.Step
      rw [hstage]
      exact Or.inl ⟨value, rfl, rfl, rfl⟩
    rw [hbeat]
    refine ⟨_, .single hstep, .of_own hnext rfl ?_ ⟨_, rfl, .same (hpaced value)⟩⟩
    exact (congrArg (Option.map Call.bare) (call?_congr hcalls d)).trans h.known
  · refine h.exists_path_aside hdc rfl rfl ?_
    exact .noteAny x fun entry hentry => hs.task value entry hentry c (Ne.symm hdc)

lemma exists_path_panic {text : String}
    (hs : Peaceful ⟨.code role d (.panic text) sequel, askers, x⟩)
    (h : Shows c ⟨.code role d (.panic text) sequel, askers, x⟩ u) :
    ∃ v, u.Path (beat c ⟨.code role d (.panic text) sequel, askers, x⟩
        (stepCode role d sequel askers x (.panic text))) v ∧
      Shows c (stepCode role d sequel askers x (.panic text)) v := by
  have hnext := hs.orderly.step (s := ⟨.code role d (.panic text) sequel, askers, x⟩) rfl
  by_cases hdc : d = c
  · subst hdc
    obtain ⟨hstage, -⟩ := h.own rfl
    have hfelt : Task.felt d x (.code role d (.panic text) sequel) = some (.panicked text) :=
      if_pos rfl
    have houtcome : Task.outcome d (.ended d (.error (.panic text))) =
        [.ended (.error (.panic text))] := if_pos rfl
    have hbeat : beat d ⟨.code role d (.panic text) sequel, askers, x⟩
        (stepCode role d sequel askers x (.panic text)) =
          .beat (some (.panicked text)) [.ended (.error (.panic text))] := by
      unfold beat
      rw [hfelt, Option.some_or]
      show History.beat _ (x.turns d x ++ x.news d x ++ [] ++
        Task.outcome d (.ended d (.error (.panic text)))) = _
      rw [turns_of_calls rfl, news_of_journal rfl, houtcome]
      rfl
    have hstep : u.Step (some (.panicked text)) [.ended (.error (.panic text))]
        (u.goTo .ended) := by
      unfold Solo.Step
      rw [hstage]
      exact Or.inr (Or.inl ⟨text, rfl, rfl, rfl⟩)
    rw [hbeat]
    exact ⟨_, .single hstep, .of_own hnext rfl h.known rfl⟩
  · exact h.exists_path_aside hdc rfl rfl (.refl c x)

/-- User code goes on after something that leaves the call alone or disposes it. -/
lemma exists_path_on {script next : Script α} {y : Exchange}
    (h : Shows c ⟨.code role d script sequel, askers, x⟩ u) (hfelt : script.felt = none)
    (hpasses : Passes c x y) :
    ∃ v, u.Path (beat c ⟨.code role d script sequel, askers, x⟩
        ⟨.code role d next sequel, askers, y⟩) v ∧
      Shows c ⟨.code role d next sequel, askers, y⟩ v := by
  refine h.exists_path_of_passes (h.isIdle_of_code rfl) (beat_of_other ?_ rfl ?_ rfl) hpasses
    ?_ h.waiting h.resting
  · show (if d = c then script.felt else none) = none
    rw [hfelt, ite_self]
  · exact entered_of_askers (Nat.le_refl _)
  · intro hcall v hstage
    obtain ⟨hcoding, hpaced⟩ := h.own hcall
    exact ⟨hstage.trans hcoding, hpaced⟩

/-- User code enters a run of another call. -/
lemma exists_path_enter {target : CallId} {next : RunReply → Script α} {plan : Plan}
    (h : Shows c ⟨.code role d (.run target next) sequel, askers, x⟩ u)
    (hrunnable : x.runnable target = .ok plan)
    (hnext : Orderly ⟨.run target (.blocking plan), ⟨role, d, next, sequel⟩ :: askers,
      x.setPresence target .busy⟩) :
    ∃ v, u.Path (beat c ⟨.code role d (.run target next) sequel, askers, x⟩
        ⟨.run target (.blocking plan), ⟨role, d, next, sequel⟩ :: askers,
          x.setPresence target .busy⟩) v ∧
      Shows c ⟨.run target (.blocking plan), ⟨role, d, next, sequel⟩ :: askers,
        x.setPresence target .busy⟩ v := by
  have hfelt : Task.felt c x (.code role d (.run target next) sequel) = none := ite_self none
  by_cases htarget : target = c
  · subst htarget
    have hworker : target ∉ workers ⟨.code role d (.run target next) sequel, askers, x⟩ :=
      (List.nodup_cons.mp hnext.nodup).1
    have hentered : entered target ⟨.code role d (.run target next) sequel, askers, x⟩
        ⟨.run target (.blocking plan), ⟨role, d, next, sequel⟩ :: askers,
          x.setPresence target .busy⟩ = some (.begun .blocking) :=
      if_pos ⟨Nat.lt_succ_self _, rfl⟩
    obtain ⟨call, hcall, -⟩ := exists_of_runnable hrunnable
    have hafter : (x.setPresence target .busy).call? target =
        some { call with presence := .busy } := by
      exact call?_modify_of_known hcall _
    have hnews : x.news target (x.setPresence target .busy) = [] := news_of_journal rfl
    have hbeat : beat target ⟨.code role d (.run target next) sequel, askers, x⟩
        ⟨.run target (.blocking plan), ⟨role, d, next, sequel⟩ :: askers,
          x.setPresence target .busy⟩ = .beat (some (.begun .blocking)) [] := by
      unfold beat
      rw [hfelt, hentered, Option.none_or, Option.some_or]
      show History.beat _ (x.turns target (x.setPresence target .busy) ++
        x.news target (x.setPresence target .busy) ++ [] ++ []) = _
      rw [turns_of_handle hcall hafter rfl, hnews]
      rfl
    have hbegun : Orderly ⟨.run target (plan.course .blocking), ⟨role, d, next, sequel⟩ :: askers,
      x.setPresence target .busy⟩ := hnext
    rw [hbeat]
    exact ⟨_, .single (.of_begun (h.resting hworker) .blocking),
      .of_begun hbegun h.known hrunnable⟩
  · refine h.exists_path_of_passes (h.isIdle_of_code rfl) (beat_of_other hfelt rfl ?_ rfl)
      (.setPresence x target .busy) ?_ ?_ ?_
    · exact entered_of_ne htarget
    · exact fun hcall => absurd hcall htarget
    · intro asker hasker hcall
      rcases List.mem_cons.mp hasker with rfl | hasker
      · exact h.own hcall
      · exact h.waiting asker hasker hcall
    · exact fun hnone => h.resting fun hworker => hnone (List.mem_cons_of_mem target hworker)

end Code

/-- The run of the call is over and somebody gets to know. -/
lemma exists_path_of_ended {x y : Exchange} (hended : u.stage = .ended)
    (hknown : x.bare? c = some u.call) (hpasses : Passes c x y) :
    ∃ v, u.Path (x.beat c y) v ∧ y.bare? c = some v.call ∧ v.stage = .resting := by
  have hstep : u.Step none [] (u.goTo .resting) := by
    unfold Solo.Step
    rw [hended]
    exact ⟨rfl, rfl, rfl⟩
  obtain ⟨v, hpath, hafter, hstage⟩ := hpasses.exists_path (u := u.goTo .resting) hknown trivial
  exact ⟨v, .cons hstep hpath, hafter, hstage⟩

/-- User code goes on after the run that it has asked for. -/
lemma exists_path_leave {how : Except Halt Unit} {asker : Asker} {askers : List Asker}
    {x : Exchange} (hs : Peaceful ⟨.ended d how, asker :: askers, x⟩)
    (h : Shows c ⟨.ended d how, asker :: askers, x⟩ u) :
    ∃ v, u.Path (beat c ⟨.ended d how, asker :: askers, x⟩
        ⟨(asker.resume d how x).1, askers, (asker.resume d how x).2⟩) v ∧
      Shows c ⟨(asker.resume d how x).1, askers, (asker.resume d how x).2⟩ v := by
  rw [Asker.resume_of_ne asker hs.orderly.task.1]
  have hbeat := beat_of_other (c := c) (s := ⟨.ended d how, asker :: askers, x⟩)
    (t := ⟨.code asker.role asker.call (asker.next (.ended how)) asker.sequel, askers,
      (x.setPresence d .here).note (.nested asker.role asker.call d (.ended how))⟩)
    rfl rfl (entered_of_askers (Nat.le_succ _)) rfl
  have hpasses : Passes c x
      ((x.setPresence d .here).note (.nested asker.role asker.call d (.ended how))) :=
    (Passes.setPresence x d .here).trans (.note _ rfl)
  by_cases hdc : d = c
  · subst hdc
    have hnew := (List.nodup_cons.mp hs.orderly.nodup).1
    obtain ⟨v, hpath, hknown, hstage⟩ := exists_path_of_ended (h.own rfl) h.known hpasses
    rw [hbeat]
    refine ⟨v, hpath, hknown, fun hcall => ?_, fun other hother hcall => ?_, fun _ => hstage⟩
    · exact absurd (List.mem_map.mpr ⟨asker, List.mem_cons_self, hcall⟩) hnew
    · exact absurd (List.mem_map.mpr ⟨other, List.mem_cons_of_mem _ hother, hcall⟩) hnew
  · refine h.exists_path_of_passes (h.isIdle hdc) hbeat hpasses ?_ ?_ ?_
    · intro hcall v hstage
      obtain ⟨hcoding, hpaced⟩ := h.waiting asker List.mem_cons_self hcall
      exact ⟨hstage.trans hcoding, hpaced⟩
    · exact fun other hother => h.waiting other (List.mem_cons_of_mem _ hother)
    · exact fun hnone => h.resting fun hworker =>
        hnone ((List.mem_cons.mp hworker).resolve_left (Ne.symm hdc))

/-- Every step is one of the call on its own, or none. -/
theorem Shows.exists_path (h : s.Shows c u) (hs : s.Peaceful) (hstep : s.step = some t) :
    ∃ v, u.Path (s.beat c t) v ∧ t.Shows c v := by
  have hnext := hs.orderly.step hstep
  obtain ⟨task, askers, x⟩ := s
  cases task with
  | run d course =>
    cases hstep
    by_cases hdc : d = c
    · subst hdc
      obtain ⟨course', hstage, halike⟩ := h.own rfl
      obtain ⟨did, v, hfollows⟩ := goesAlong_of_alike hs.orderly h.known halike
      have hsolo : u.Step (course.felt d x) did v := by
        unfold Solo.Step
        rw [hstage]
        exact hfollows.follows
      have hpath := Solo.Path.single hsolo
      rw [← hfollows.beat] at hpath
      exact ⟨v, hpath, .of_own hnext (call_stepRun x d course) hfollows.known hfollows.own⟩
    · exact h.exists_path_aside hdc (call_stepRun x d course) rfl (.stepRun hdc x course)
  | code role d script sequel =>
    cases hstep
    cases script with
    | done value => exact exists_path_done hs h
    | panic text => exact exists_path_panic hs h
    | act deed target next =>
      exact exists_path_on h rfl ((Passes.performFor x deed target).trans (.note _ rfl))
    | run target next =>
      rw [stepCode] at hnext ⊢
      dsimp only at hnext ⊢
      by_cases hreaches : x.reaches target
      · rw [if_pos hreaches] at hnext ⊢
        cases hrunnable : x.runnable target with
        | error reply => exact exists_path_on h rfl (.note x rfl)
        | ok plan =>
          rw [hrunnable] at hnext
          exact exists_path_enter h hrunnable hnext
      · rw [if_neg hreaches]
        exact exists_path_on h rfl (.note x rfl)
  | ended d how =>
    cases askers with
    | nil => cases hstep
    | cons asker askers =>
      cases hstep
      exact exists_path_leave hs h

end Steps

end Scene

end Redial
