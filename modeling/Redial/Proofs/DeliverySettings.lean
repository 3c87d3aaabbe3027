import Redial.Proofs.ErasedSessions
import Redial.Proofs.PlainScenes

/-!
# Delivery settings make no difference

Two sessions whose calls differ only in what their outboxes do when they are full, and in how much
room they have there, show the same after every command. A run among other threads can take the same
steps in both. Hence what the settings say is never needed: a verdict always finds an outbox that is
open and empty.
-/

namespace Redial

open StateTransition

namespace Erasure

lemma builds_ofOutboxes : ofOutboxes.Builds := by
  intro x plan listed
  have hadd (y : Exchange) (feed : Option FeedId) :
      { y.plain with calls := y.plain.calls ++ [some (plan.plain.toCall feed listed)] } =
        Exchange.plain { y with calls := y.calls ++ [some (plan.toCall feed listed)] } := by
    unfold Exchange.plain
    rw [List.map_append]
    rfl
  have hfeed : plan.plain.feed = plan.feed := rfl
  rw [exchange_ofOutboxes, exchange_ofOutboxes]
  change x.plain.addPlan plan.plain listed = _
  unfold Exchange.addPlan
  rw [hfeed]
  cases plan.feed with
  | none => exact hadd x none
  | shared feed => exact hadd x (some feed)
  | own => exact hadd (x.openFeed plan.delivery.feedRoom).2 (some x.feeds.length)

end Erasure

namespace Exchange

open Erasure

variable {x : Exchange}

theorem Ready.callOnce_plain (hx : x.Ready) (plan : Plan) :
    x.plain.callOnce plan.plain = ((x.callOnce plan).1, (x.callOnce plan).2.plain) := by
  rw [← exchange_ofOutboxes, ← exchange_ofOutboxes]
  exact callOnce_exchange builds_ofOutboxes isLawful_ofOutboxes (fits_ofOutboxes x) hx plan

end Exchange

/-- The draft with the settings that its call will have, but for its outbox. -/
def Draft.resolved (usual : Delivery.Settings) (draft : Draft) : Draft :=
  { draft with delivery := some (draft.delivery.getD usual).plain }

lemma Draft.plan_resolved (draft : Draft) (usual other : Delivery.Settings) (draws : Nat → Nat) :
    (draft.resolved usual).plan other draws = (draft.plan usual draws).map Plan.plain := by
  unfold plan
  have hbody : (draft.resolved usual).body = draft.body := rfl
  rw [hbody]
  cases draft.body with
  | none => rfl
  | some body => rfl

/-- What one learns of a call, but for the rule of its outbox. -/
def CallInfo.plain (info : CallInfo) : CallInfo := { info with overflow := .latest }

def Answer.plain : Answer → Answer
  | .info known => .info known.plain
  | answer => answer

/-- What one sees, but for the rules of outboxes. -/
def View.plain (view : Session.View) : Session.View := { view with answer := view.answer.plain }

lemma Answer.plain_of_ne {answer : Answer} (h : ∀ known, answer ≠ .info known) :
    answer.plain = answer := by
  cases answer with
  | info known => exact absurd rfl (h known)
  | _ => rfl

namespace Session

open Erasure Exchange

variable {s : Session} {c : CallId}

def plain (s : Session) : Session := { s with exchange := s.exchange.plain }

lemma session_ofOutboxes (s : Session) : ofOutboxes.session s = s.plain := by
  unfold Erasure.session
  rw [exchange_ofOutboxes]
  rfl

lemma addTap_plain (s : Session) (label : TapLabel) (feed : FeedId) :
    s.plain.addTap label feed = (s.addTap label feed).plain := rfl

lemma tapAll_plain (capacities : List Nat) (x : Exchange) :
    tapAll capacities x.plain = (tapAll capacities x).plain := by
  let tapFeed (s : Session) (i : FeedId) : Session := s.addTap (.feed i) i
  have hshared : (List.range capacities.length).foldl tapFeed { exchange := x.plain } =
      ((List.range capacities.length).foldl tapFeed { exchange := x }).plain := by
    refine @List.foldl_hom _ _ _ plain tapFeed tapFeed _ { exchange := x } fun s i => ?_
    exact addTap_plain s (.feed i) i
  have hcalls : x.plain.calls.zipIdx =
      x.calls.zipIdx.map (Prod.map (·.map Call.plain) id) := List.zipIdx_map
  unfold tapAll
  rw [hshared, hcalls, List.foldl_map]
  refine List.foldl_hom plain fun s entry => ?_
  obtain ⟨call, c⟩ := entry
  unfold addOwnTap
  cases call with
  | none => rfl
  | some call =>
    have hplan : call.plain.plan.feed = call.plan.feed := rfl
    have hfeed : call.plain.feed = call.feed := rfl
    dsimp only [Prod.map, Option.map_some, id]
    rw [hplan, hfeed]
    split
    · exact addTap_plain s _ _
    · rfl

/-- A session opens the same whatever the outboxes of its calls do when they are full. -/
theorem openWith_plain (capacities : List Nat) (drafts : List Draft)
    (usual other : Delivery.Settings) (draws : Nat → Nat → Nat) (quiet : Bool) :
    openWith capacities (drafts.map (Draft.resolved usual)) other draws quiet =
      ((openWith capacities drafts usual draws quiet).1,
        (openWith capacities drafts usual draws quiet).2.plain) := by
  let begun : Exchange := .withFeeds capacities 1
  have hbuilt : begun.addDrafts other draws (drafts.map (Draft.resolved usual)) =
      ((begun.addDrafts usual draws drafts).1, (begun.addDrafts usual draws drafts).2.plain) := by
    have hresolved (draft : Draft) (draws : Nat → Nat) := draft.plan_resolved usual other draws
    rw [← exchange_ofOutboxes]
    exact addDrafts_exchange builds_ofOutboxes hresolved begun drafts draws
  rw [openWith_eq, openWith_eq]
  dsimp only
  rw [hbuilt, tapAll_plain]
  cases quiet with
  | true => rfl
  | false => rfl

lemma collect_plain (s : Session) : s.plain.collect = (s.collect.1, s.collect.2.plain) := by
  unfold collect
  let erased (seen : List (TapLabel × List (Reading Event)) × Session) := (seen.1, seen.2.plain)
  refine @List.foldl_hom _ _ _ erased _ _ s.taps ([], s) fun seen tap => ?_
  have hfeeds : seen.2.plain.exchange.feeds = seen.2.exchange.feeds := rfl
  dsimp only [erased]
  rw [hfeeds]
  split
  · rfl
  · rfl

/-- An alarm that is due after a blocking run goes off. -/
def ringLate (x : Exchange) : Exchange :=
  match x.alarm with
  | some ⟨_, .clock due, none⟩ => x.elapse (due - x.clock)
  | _ => x

lemma ringLate_plain (x : Exchange) : ringLate x.plain = (ringLate x).plain := by
  have halarm : x.plain.alarm = x.alarm := rfl
  unfold ringLate
  rw [halarm]
  split
  · exact elapse_plain x _
  · rfl

section Ready

variable {x : Exchange} (hx : x.Ready)
include hx

lemma runWatched_plain (c : CallId) (n : Nat) :
    runWatched c n x.plain = ((runWatched c n x).1, (runWatched c n x).2.plain) := by
  -- Of the call only its feed is looked at, to set the alarm.
  let watched (feed : Option FeedId) (y : Exchange) : (RunReply × Option Bool) × Exchange :=
    let alarm := feed.map fun feed => ({ target := c, trigger := .retries feed n watchDelay } : Alarm)
    let ran := Exchange.run c { y with alarm }
    ((ran.1, (ringLate ran.2).alarm.bind (·.answer)), { ringLate ran.2 with alarm := none })
  have hwatched (y : Exchange) : runWatched c n y = watched ((y.call? c).bind (·.feed)) y := rfl
  have hfeed : (x.plain.call? c).bind (·.feed) = (x.call? c).bind (·.feed) := by
    rw [call?_plain]
    cases x.call? c with
    | none => rfl
    | some call => rfl
  have hran (alarm : Option Alarm) : Exchange.run c { x.plain with alarm } =
      ((Exchange.run c { x with alarm }).1, (Exchange.run c { x with alarm }).2.plain) := by
    have hready : Ready { x with alarm } := hx.of_calls rfl
    exact hready.run_plain c
  rw [hwatched, hwatched, hfeed]
  dsimp only [watched]
  rw [hran, ringLate_plain]
  rfl

end Ready

lemma onCall_plain {f g : Call → Answer × Session}
    (h : ∀ call, g call.plain = ((f call).1.plain, (f call).2.plain)) :
    s.plain.onCall c g = ((s.onCall c f).1.plain, (s.onCall c f).2.plain) := by
  rw [← session_ofOutboxes, ← session_ofOutboxes]
  refine onCall_session Answer.plain rfl fun call => ?_
  rw [session_ofOutboxes]
  exact h call

/-- A command does the same whatever the outboxes do when they are full. -/
theorem execute_plain (hs : s.exchange.Ready) (command : Command) :
    s.plain.execute command = ((s.execute command).1.plain, (s.execute command).2.plain) := by
  cases hplain : command.isPlain with
  | true =>
    have hexecuted := execute_session isLawful_ofOutboxes (fits_ofOutboxes _) hs hplain
    rw [session_ofOutboxes, session_ofOutboxes] at hexecuted
    rw [hexecuted, Answer.plain_of_ne (execute_ne_info hplain s)]
  | false =>
    cases command with
    | runWatched c n =>
      refine onCall_plain fun _ => ?_
      have hran := runWatched_plain hs c n
      exact congrArg (fun ran : (RunReply × Option Bool) × Exchange =>
        (Answer.watched ran.1.1 ran.1.2 (ran.2.clock - s.exchange.clock),
          { s with exchange := ran.2 })) hran
    | info c => exact onCall_plain fun _ => rfl
    | subscribe c =>
      refine onCall_plain fun call => ?_
      have hfeed : call.plain.feed = call.feed := rfl
      rw [hfeed]
      cases call.feed with
      | none => rfl
      | some feed => rfl
    | unsubscribe => rfl
    | _ => cases hplain

lemma states_plain (s : Session) : s.plain.states = s.states := by
  rw [← session_ofOutboxes]
  exact states_session s

theorem step_plain (hs : s.exchange.Ready) (command : Command) :
    s.plain.step command = (View.plain (s.step command).1, (s.step command).2.plain) := by
  have hjournal (t : Session) : t.plain.exchange.journal = t.exchange.journal := rfl
  unfold step
  rw [execute_plain hs]
  dsimp only
  rw [collect_plain]
  dsimp only
  rw [states_plain, hjournal, hjournal]
  rfl

/-- After any commands one has seen the same. -/
theorem steps_plain (hs : s.exchange.Ready) (commands : List Command) :
    s.plain.steps commands = ((s.steps commands).1.map View.plain, (s.steps commands).2.plain) := by
  induction commands generalizing s with
  | nil => rfl
  | cons command commands ih =>
    have hnext : (s.step command).2.exchange.Ready := kept_step isKept_ready s command hs
    unfold steps
    rw [step_plain hs]
    dsimp only
    rw [ih hnext]
    rfl

end Session

namespace Surroundings

/-- What is around a run, but for what its outbox does when it is full. -/
def plain (e : Surroundings) : Surroundings := { e with outbox := e.outbox.plain }

variable {e : Surroundings} {stride : Stride}

lemma meet_push_plain (hopen : e.outbox.isClosed = false) (hempty : e.outbox.queue = [])
    (verdict : Verdict) (answer : Except Delivery.Refusal Nat) :
    e.plain.meet (.pushed verdict answer) = (e.meet (.pushed verdict answer)).map plain := by
  have hopen' : e.plain.outbox.isClosed = false := hopen
  have hempty' : e.plain.outbox.queue = [] := hempty
  have hsize : (e.plain.outbox.append verdict).size = (e.outbox.append verdict).size := rfl
  simp only [meet, Delivery.Outbox.push_of_empty hopen hempty,
    Delivery.Outbox.push_of_empty hopen' hempty']
  cases answer with
  | error reason => rfl
  | ok held =>
    dsimp only
    rw [hsize, apply_ite (Option.map plain)]
    rfl

lemma meet_pop_plain (e : Surroundings) (verdict : Option Verdict) :
    e.plain.meet (.popped verdict) = (e.meet (.popped verdict)).map plain := by
  have hqueue : e.plain.outbox.queue = e.outbox.queue := rfl
  simp only [meet, Delivery.Outbox.pop, hqueue]
  cases e.outbox.queue with
  | nil =>
    dsimp only
    rw [apply_ite (Option.map plain)]
    rfl
  | cons oldest rest =>
    dsimp only
    rw [apply_ite (Option.map plain)]
    rfl

/-- All other answers have nothing to do with the outbox. -/
lemma meet_plain_of_ne (hpush : ∀ verdict answer, stride ≠ .pushed verdict answer)
    (hpop : ∀ verdict, stride ≠ .popped verdict) :
    e.plain.meet stride = (e.meet stride).map plain := by
  have hshared : e.plain.shared = e.shared := rfl
  have hdisposed : e.plain.isDisposed = e.isDisposed := rfl
  have hcallback (verdict : Verdict) : e.plain.hasCallback verdict = e.hasCallback verdict := by
    cases verdict with
    | success | failure => rfl
  have huse (verdict : Verdict) : e.plain.useCallback verdict = (e.useCallback verdict).plain := by
    cases verdict with
    | success | failure => rfl
  unfold meet
  cases stride with
  | pushed verdict answer => exact absurd rfl (hpush verdict answer)
  | popped verdict => exact absurd rfl (hpop verdict)
  | started won =>
    rw [hshared, apply_ite (Option.map plain)]
    rfl
  | looked disposed =>
    rw [hdisposed, apply_ite (Option.map plain)]
    rfl
  | callbackBegan verdict =>
    dsimp only
    rw [hcallback, huse, apply_ite (Option.map plain)]
    rfl
  | callbackMissing verdict =>
    dsimp only
    rw [hcallback, apply_ite (Option.map plain)]
    rfl
  | _ => rfl

end Surroundings

namespace Race

variable {r r' s : Race} {stride : Stride} {strides : List Stride}

/-- The race, but for what the outbox of the run does when it is full. -/
def plain (r : Race) : Race := { r with around := r.around.plain }

lemma begin_plain (plan : Plan) (manner : Manner) (shared : SharedHandle) :
    begin plan.plain manner shared = (begin plan manner shared).plain := by
  unfold begin
  rw [Plan.course_plain]
  rfl

lemma step_of_own (hown : stride.isOwn = true) : r.step stride =
    (r.standing.after? stride).bind fun standing =>
      (r.around.meet stride).bind fun around => some ⟨around, standing⟩ := by
  cases stride with
  | other thread => cases hown
  | _ => rfl

/-- The surroundings answer a run the same whatever its outbox does when it is full. -/
lemma Fits.meet_plain (hr : r.Fits) {after : Standing} (hlead : r.standing.Leads stride after) :
    r.around.plain.meet stride = (r.around.meet stride).map Surroundings.plain := by
  by_cases hpush : ∃ verdict answer, stride = .pushed verdict answer
  · obtain ⟨verdict, answer, rfl⟩ := hpush
    obtain ⟨hopen, hfits⟩ := hr
    have hempty : r.around.outbox.queue = [] := by
      generalize r.standing = standing at hlead hfits
      cases hlead
      exact List.eq_nil_of_length_eq_zero hfits.1.1
    exact Surroundings.meet_push_plain hopen hempty verdict answer
  by_cases hpop : ∃ verdict, stride = .popped verdict
  · obtain ⟨verdict, rfl⟩ := hpop
    exact Surroundings.meet_pop_plain _ verdict
  · exact Surroundings.meet_plain_of_ne (fun _ _ heq => hpush ⟨_, _, heq⟩)
      fun _ heq => hpop ⟨_, heq⟩

/-- A step of the run or of another thread is the same whatever the outbox does when it is full. -/
theorem Fits.step_plain (hr : r.Fits) (stride : Stride) :
    r.plain.step stride = (r.step stride).map plain := by
  cases hown : stride.isOwn with
  | false =>
    cases stride with
    | other thread =>
      have hother (t : Race) : t.step (.other thread) = (t.around.shared.step thread).bind
          fun shared => some { t with around := { t.around with shared } } := rfl
      have hshared : r.plain.around.shared = r.around.shared := rfl
      rw [hother, hother, hshared]
      cases r.around.shared.step thread with
      | none => rfl
      | some shared => rfl
    | _ => cases hown
  | true =>
    have hstanding : r.plain.standing = r.standing := rfl
    have haround : r.plain.around = r.around.plain := rfl
    rw [step_of_own hown, step_of_own hown, hstanding]
    cases hafter : r.standing.after? stride with
    | none => rfl
    | some after =>
      have hmeet := hr.meet_plain (Standing.leads_of_after? hafter)
      rw [Option.bind_some, Option.bind_some, haround, hmeet]
      cases r.around.meet stride with
      | none => rfl
      | some around => rfl

theorem Fits.follow_plain (hr : r.Fits) (strides : List Stride) :
    r.plain.follow strides = (r.follow strides).map plain := by
  induction strides generalizing r with
  | nil => rfl
  | cons stride strides ih =>
    rw [follow_cons, follow_cons, hr.step_plain]
    cases hstep : r.step stride with
    | none => rfl
    | some s => exact ih (hr.step hstep).1

end Race

namespace Race

/-- Steps that are possible in a run of one call are possible in a run of another one that differs
only in what it does when its outbox is full. -/
theorem follow_begin_plain {plan plan' : Plan} (hplain : plan'.plain = plan.plain) (manner : Manner)
    (shared : SharedHandle) (strides : List Stride) :
    ((begin plan' manner shared).follow strides).map plain =
      ((begin plan manner shared).follow strides).map plain := by
  rw [← (fits_begin plan' manner shared).follow_plain, ← (fits_begin plan manner shared).follow_plain,
    ← begin_plain, ← begin_plain, hplain]

/-- A run that is over has taken out of its outbox what it has put in. -/
theorem pushed_eq_popped {plan : Plan} {manner : Manner} {shared : SharedHandle}
    {strides : List Stride} {r : Race} (h : (begin plan manner shared).follow strides = some r)
    (hover : r.IsOver) :
    strides.filterMap Stride.pushed? = strides.filterMap Stride.popped? := by
  obtain ⟨hr, -, hbalanced⟩ := (fits_begin plan manner shared).follow h
  unfold Balanced at hbalanced
  rw [hr.queue_of_isOver hover, List.append_nil] at hbalanced
  exact hbalanced

end Race

namespace Exchange

variable {x y : Exchange}

lemma Ready.callOnce (hx : x.Ready) (plan : Plan) :
    (x.callOnce plan).2.Ready ∧ (x.NoOverflow → (x.callOnce plan).2.NoOverflow) := by
  have hadded : (x.addPlan plan false).Ready := hx.addPlan plan false
  have hran := isKept_noOverflow.run (x.addPlan plan false) x.calls.length
  obtain ⟨hready, hkept⟩ :=
    isKept_noOverflow.trans hran (isKept_noOverflow.perform _ .drop x.calls.length) hadded
  refine ⟨hready, fun hnone => hkept ?_⟩
  exact hnone.of_journal (journal_addPlan x plan false)

/-- One-shot calls that differ only in what they do when their outboxes are full. -/
lemma Ready.callOnce_congr (hx : x.Ready) (hy : y.Ready) (hplain : y.plain = x.plain)
    {plan plan' : Plan} (hplan : plan'.plain = plan.plain) :
    (y.callOnce plan').1 = (x.callOnce plan).1 ∧
      (y.callOnce plan').2.plain = (x.callOnce plan).2.plain := by
  have hcalled := hy.callOnce_plain plan'
  rw [hplain, hplan, hx.callOnce_plain] at hcalled
  exact Prod.mk.inj hcalled.symm

/-- The steps of runs of one exchange are those of another one that differs only in what its calls
do when their outboxes are full. -/
theorem Ready.exists_opening_reaches (hx : x.Ready) (hy : y.Ready) (hplain : y.plain = x.plain)
    {manner : Manner} {c : CallId} {plan : Plan} (hrunnable : x.runnable c = .ok plan) :
    ∃ plan', y.runnable c = .ok plan' ∧ ∀ s, Reaches Scene.step (x.opening manner c plan) s →
      ∃ t, Reaches Scene.step (y.opening manner c plan') t ∧ t.plain = s.plain := by
  have hsame : (y.runnable c).map Plan.plain = .ok plan.plain := by
    rw [← runnable_plain, hplain, runnable_plain, hrunnable]
    rfl
  cases hother : y.runnable c with
  | error reply =>
    rw [hother] at hsame
    cases hsame
  | ok plan' =>
    rw [hother] at hsame
    have hplan : plan'.plain = plan.plain := Except.ok.inj hsame
    have hopening : (y.opening manner c plan').plain = (x.opening manner c plan).plain := by
      rw [← opening_plain, ← opening_plain, hplain, hplan]
    refine ⟨plan', rfl, fun s hreaches => ?_⟩
    exact (hx.opening hrunnable manner).exists_reaches (hy.opening hother manner) hopening hreaches

end Exchange

namespace Session

open Exchange

variable {capacities : List Nat} {drafts drafts' : List Draft} {usual usual' : Delivery.Settings}

/-- No call of a session ever tells of an overflow. -/
theorem noOverflow_steps (capacities : List Nat) (drafts : List Draft) (usual : Delivery.Settings)
    (draws : Nat → Nat → Nat) (quiet : Bool) (commands : List Command) :
    ((openWith capacities drafts usual draws quiet).2.steps commands).2.exchange.NoOverflow := by
  have hopened := ready_openWith capacities drafts usual draws quiet
  apply (kept_steps isKept_noOverflow _ commands hopened).2
  unfold NoOverflow
  rw [(opened_openWith capacities drafts usual draws quiet).1]
  intro c notice place hnone
  exact absurd hnone List.not_mem_nil

/-- Two sessions whose drafts differ only in what is done about full outboxes. -/
theorem steps_congr (hdrafts : drafts'.map (Draft.resolved usual') = drafts.map (Draft.resolved usual))
    (draws : Nat → Nat → Nat) (quiet : Bool) (commands : List Command) :
    let opened := openWith capacities drafts usual draws quiet
    let opened' := openWith capacities drafts' usual' draws quiet
    opened'.1 = opened.1 ∧
      (opened'.2.steps commands).1.map View.plain = (opened.2.steps commands).1.map View.plain ∧
      (opened'.2.steps commands).2.plain = (opened.2.steps commands).2.plain := by
  intro opened opened'
  have hopened : (opened'.1, opened'.2.plain) = (opened.1, opened.2.plain) := by
    rw [← openWith_plain capacities drafts' usual' usual, hdrafts, openWith_plain]
  obtain ⟨hbuilt, hplain⟩ := Prod.mk.inj hopened
  have hready : opened.2.exchange.Ready := ready_openWith capacities drafts usual draws quiet
  have hready' : opened'.2.exchange.Ready := ready_openWith capacities drafts' usual' draws quiet
  have hsteps := steps_plain hready' commands
  rw [hplain, steps_plain hready] at hsteps
  obtain ⟨hviews, hend⟩ := Prod.mk.inj hsteps
  exact ⟨hbuilt, hviews.symm, hend.symm⟩

/-- Delivery can neither fail nor block, whatever the rule of an outbox and its room are. After any
commands the exchange is ready, no operation changes that, and no call has told of an overflow.
Wherever a run of a ready exchange delivers a verdict, nested as it may be, the outbox is open and
empty, takes the verdict at once and gives it back as the only one. So it is among other threads
that dispose the handle, where a run that is over has taken out what it has put in.

Hence the settings of deliveries make no difference. Drafts that differ only in these become calls
that show the same after every command, up to the rule that one can ask for. One-shot calls, the
single steps of runs, and the steps that are possible among other threads are the same as well. -/
theorem delivery_settings_make_no_difference (capacities : List Nat) (drafts : List Draft)
    (usual : Delivery.Settings) (draws : Nat → Nat → Nat) (quiet : Bool) (commands : List Command) :
    let opened := openWith capacities drafts usual draws quiet
    let seen := opened.2.steps commands
    let x := seen.2.exchange
    (x.Ready ∧ x.NoOverflow) ∧
    (∀ y : Exchange, y.Ready →
      (∀ deed c, (y.perform deed c).2.Ready) ∧ (∀ plan listed, (y.addPlan plan listed).Ready) ∧
      (∀ plan, (y.callOnce plan).2.Ready ∧ (y.NoOverflow → (y.callOnce plan).2.NoOverflow)) ∧
      ∀ manner c plan s, y.runnable c = .ok plan →
        Reaches Scene.step (y.opening manner c plan) s → s.Delivers) ∧
    (∀ plan manner shared strides race,
      (Race.begin plan manner shared).follow strides = some race →
        race.Delivers ∧ (∀ stride ∈ strides, stride.IsSmooth) ∧
        (race.IsOver → strides.filterMap Stride.pushed? = strides.filterMap Stride.popped?)) ∧
    (∀ drafts' usual', drafts'.map (Draft.resolved usual') = drafts.map (Draft.resolved usual) →
      let opened' := openWith capacities drafts' usual' draws quiet
      let seen' := opened'.2.steps commands
      opened'.1 = opened.1 ∧ seen'.1.map View.plain = seen.1.map View.plain ∧
      seen'.2.plain = seen.2.plain ∧ seen'.2.exchange.journal = x.journal) ∧
    (∀ y y' : Exchange, y.Ready → y'.Ready → y'.plain = y.plain →
      (∀ plan plan', plan'.plain = plan.plain → (y'.callOnce plan').1 = (y.callOnce plan).1 ∧
        (y'.callOnce plan').2.plain = (y.callOnce plan).2.plain) ∧
      ∀ manner c plan, y.runnable c = .ok plan → ∃ plan', y'.runnable c = .ok plan' ∧
        ∀ s, Reaches Scene.step (y.opening manner c plan) s →
          ∃ s', Reaches Scene.step (y'.opening manner c plan') s' ∧ s'.plain = s.plain) ∧
    (∀ plan plan' manner shared strides, plan'.plain = plan.plain →
      ((Race.begin plan' manner shared).follow strides).map Race.plain =
        ((Race.begin plan manner shared).follow strides).map Race.plain) := by
  intro opened seen x
  refine ⟨⟨?_, ?_⟩, ?_, ?_, ?_, ?_, ?_⟩
  · exact ready_steps (ready_openWith capacities drafts usual draws quiet) commands
  · exact noOverflow_steps capacities drafts usual draws quiet commands
  · intro y hy
    refine ⟨hy.perform, hy.addPlan, hy.callOnce, ?_⟩
    intro manner c plan s hrunnable hreaches
    exact ((hy.opening hrunnable manner).reaches hreaches).delivers
  · intro plan manner shared strides race hfollow
    obtain ⟨hfits, hsmooth, -⟩ := (Race.fits_begin plan manner shared).follow hfollow
    exact ⟨hfits.delivers, hsmooth, Race.pushed_eq_popped hfollow⟩
  · intro drafts' usual' hdrafts opened' seen'
    obtain ⟨hbuilt, hviews, hend⟩ := steps_congr hdrafts draws quiet commands
    have hjournal := congrArg (fun s : Session => s.exchange.journal) hend
    exact ⟨hbuilt, hviews, hend, hjournal⟩
  · intro y y' hy hy' hplain
    refine ⟨?_, ?_⟩
    · intro plan plan' hplan
      exact hy.callOnce_congr hy' hplain hplan
    · intro manner c plan hrunnable
      exact hy.exists_opening_reaches hy' hplain hrunnable
  · intro plan plan' manner shared strides hplain
    exact Race.follow_begin_plain hplain manner shared strides

/-- Two calls with the same settings. The first one is retried once and runs the second one from its
callback; the callback of the second one panics. -/
def busyDrafts (settings : Delivery.Settings) : List Draft :=
  [{ body := some fun n => .done (if n = 1 then .error .canceled else .ok ⟨true, "done"⟩)
     limit := .ofNat 1
     onSuccess := some fun _ => .run 1 fun _ => .done ()
     events := true },
   { body := some fun _ => .done (.ok ⟨true, "other"⟩)
     onSuccess := some fun _ => .panic "late"
     delivery := some settings }]

def busy (settings : Delivery.Settings) : Session :=
  (openWith [] (busyDrafts settings) settings (fun _ _ => 0) true).2

/-- The two calls are run with outboxes that block and have no room asked for, and with roomy ones
that refuse what they cannot hold. Among other threads the verdict on a canceled attempt is about to
be delivered, beside a disposal that has not begun. -/
theorem delivery_settings_make_no_difference_blocked :
    let blocking : Delivery.Settings := ⟨.block, 0, 8⟩
    let refusing : Delivery.Settings := ⟨.refuse, 9, 8⟩
    let strides : List Stride :=
      [.started true, .looked false, .told { kind := .attemptStarting, attempt := some 1 },
        .bodyBegan, .bodyEnded (.error .canceled),
        .told { kind := .attemptFailed, attempt := some 1, error := some "call cancelled" }]
    (((busy refusing).steps [.run 0, .run 1]).1.map View.plain =
        ((busy blocking).steps [.run 0, .run 1]).1.map View.plain ∧
      ((busy refusing).steps [.run 0, .run 1]).2.exchange.journal =
        ((busy blocking).steps [.run 0, .run 1]).2.exchange.journal ∧
      ((busy blocking).steps [.run 0, .run 1]).2.exchange.journal.length = 13) ∧
    (∃ plan, (busy blocking).exchange.runnable 0 = .ok plan ∧
      ∀ s, Reaches Scene.step ((busy blocking).exchange.opening .blocking 0 plan) s → s.Delivers) ∧
    ∃ race p, (Race.begin .canceled .blocking { uses := [.disposing] }).follow strides = some race ∧
      race.standing = .before (.deliver p (.failure .canceled)) ∧ race.Delivers := by
  intro blocking refusing strides
  obtain ⟨-, hruns, hraces, hsame, -⟩ := delivery_settings_make_no_difference []
    (busyDrafts blocking) blocking (fun _ _ => 0) true [.run 0, .run 1]
  obtain ⟨-, hviews, -, hjournal⟩ := hsame (busyDrafts refusing) refusing rfl
  have hready : (busy blocking).exchange.Ready := ready_openWith [] (busyDrafts blocking) _ _ _
  obtain ⟨-, -, -, hdelivers⟩ := hruns _ hready
  refine ⟨⟨hviews, hjournal, ?_⟩, ?_, ?_⟩
  · decide +kernel
  · exact ⟨_, rfl, fun s hreaches => hdelivers .blocking 0 _ s rfl hreaches⟩
  · exact ⟨_, _, rfl, rfl, (hraces .canceled .blocking { uses := [.disposing] } strides _ rfl).1⟩

end Session

end Redial
