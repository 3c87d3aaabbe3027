import Redial.Proofs.ErasedSessions

/-!
# Listening makes no difference

Calls tell of events, on feeds of their own, on shared ones or to nobody, and there may be readers
on these feeds, some of them late or gone. All of this can be forgotten: a call does the same as if
it had no feed. Only what is published and the numbers that are used up for it are not the same.
-/

namespace Redial

open StateTransition

/-- The entry without where a call has told of an event. -/
def Entry.silent : Entry → Entry
  | .told c notice _ => .told c notice none
  | entry => entry

/-- The plan of a call without a feed. -/
def Plan.silent (plan : Plan) : Plan :=
  { plan with delivery := { plan.delivery with feedCapacity := 1 }, feed := .none }

def Call.silent (call : Call) : Call :=
  { call with
    plan := call.plan.silent
    feed := none
    badge := ⟨call.plan.name, none⟩
    badge_eq := rfl }

/-- The exchange as it is if no call has a feed: nothing is published, and no number is used up. -/
def Exchange.silent (x : Exchange) : Exchange :=
  { x with
    calls := x.calls.map (·.map Call.silent)
    feeds := []
    nextSeq := 1
    journal := x.journal.map Entry.silent }

def Scene.silent (s : Scene) : Scene := { s with exchange := s.exchange.silent }

/-- The alarm goes off at its time, whatever is published. -/
def Trigger.IsTimed : Trigger → Prop
  | .timer _ | .clock _ => True
  | .retries _ _ _ => False

/-- No other thread waits for an event to happen. -/
def Exchange.IsUnwatched (x : Exchange) : Prop := x.AlarmIn Trigger.IsTimed

namespace Erasure

/-- It is forgotten that anybody listens. -/
def ofFeeds : Erasure where
  plan := Plan.silent
  feed := fun _ => none
  feeds := fun _ => []
  nextSeq := fun _ => 1
  entry := Entry.silent
  taps := fun _ => []
  allows := Trigger.IsTimed

variable {x : Exchange}

/-- An alarm that goes off at its time does not count events. -/
lemma countRetry_ofFeeds (h : x.IsUnwatched) (feed : FeedId) : x.countRetry feed = x := by
  unfold Exchange.countRetry
  split
  case h_1 halarm => exact absurd (h _ halarm) id
  case h_2 => rfl

lemma tell_ofFeeds (h : x.IsUnwatched) (c : CallId) (notice : Notice) :
    x.silent.tell c notice = (x.tell c notice).silent := by
  have hcall : x.silent.call? c = (x.call? c).map Call.silent := call?_exchange (e := ofFeeds) x c
  unfold Exchange.tell Exchange.publish
  rw [hcall]
  cases x.call? c with
  | none => rfl
  | some call =>
    have hfeed : call.silent.feed = none := rfl
    dsimp only [Option.map_some]
    rw [hfeed]
    cases call.feed with
    | none => rfl
    | some feed =>
      let told : Notice := { notice with call := some call.plan.name }
      let published : Exchange := { x.note (.told c told (some (feed, x.nextSeq))) with
        feeds := x.feeds.modify feed (·.send { told with seq := x.nextSeq })
        nextSeq := x.nextSeq + 1 }
      have hpublished : published.IsUnwatched := h
      have hcounted : published.countRetry feed = published := countRetry_ofFeeds hpublished feed
      dsimp only
      split
      · exact congrArg Exchange.silent hcounted.symm
      · rfl

theorem isLawful_ofFeeds : ofFeeds.IsLawful where
  plan := fun _ => rfl
  vacant := fun _ hopen hempty => ⟨hopen, hempty⟩
  append := fun _ _ => rfl
  pop box := (congrFun Option.map_id box.pop).symm
  close := fun _ => rfl
  entry entry huntold := by
    cases entry with
    | told => cases huntold
    | _ => rfl
  tell x c notice h := tell_ofFeeds h c notice
  timer := fun _ => trivial
  retries := Or.inr fun _ _ _ => id

lemma builds_ofFeeds : ofFeeds.Builds := by
  intro x plan listed
  have hadd (y : Exchange) (feed : Option FeedId) :
      { y.silent with calls := y.silent.calls ++ [some (plan.silent.toCall none listed)] } =
        Exchange.silent { y with calls := y.calls ++ [some (plan.toCall feed listed)] } := by
    unfold Exchange.silent
    rw [List.map_append]
    rfl
  change x.silent.addPlan plan.silent listed = Exchange.silent _
  unfold Exchange.addPlan
  cases plan.feed with
  | none => exact hadd x none
  | shared feed => exact hadd x (some feed)
  | own => exact hadd (x.openFeed plan.delivery.feedRoom).2 (some x.feeds.length)

end Erasure

/-- The draft of a call without a feed. -/
def Draft.silent (usual : Delivery.Settings) (draft : Draft) : Draft :=
  { draft with
    delivery := some { draft.delivery.getD usual with feedCapacity := 1 }
    feed := none
    events := false }

lemma Draft.plan_silent (draft : Draft) (usual other : Delivery.Settings) (draws : Nat → Nat) :
    (draft.silent usual).plan other draws = (draft.plan usual draws).map Plan.silent := by
  have hbody : (draft.silent usual).body = draft.body := rfl
  unfold plan
  rw [hbody]
  cases draft.body with
  | none => rfl
  | some body => rfl

/-- The command has to do with readers only. -/
def Command.listens : Command → Bool
  | .subscribe _ | .unsubscribe => true
  | _ => false

/-- The command lets another thread wait for events. -/
def Command.watches : Command → Bool
  | .runWatched _ _ => true
  | _ => false

lemma Command.listens_of_watches (command : Command) (h : command.watches = true) :
    command.listens = false := by
  cases command with
  | runWatched c n => rfl
  | _ => cases h

/-- What one learns of a call, but for its readers. -/
def CallInfo.silent (info : CallInfo) : CallInfo := { info with readers := none }

def Answer.silent : Answer → Answer
  | .info known => .info known.silent
  | answer => answer

lemma Answer.silent_of_ne {answer : Answer} (h : ∀ known, answer ≠ .info known) :
    answer.silent = answer := by
  cases answer with
  | info known => exact absurd rfl (h known)
  | _ => rfl

namespace Session

open Erasure Exchange

variable {s : Session}

/-- What one sees, but for all that is published. -/
def View.silent (view : View) : View :=
  { view with
    answer := view.answer.silent
    entries := view.entries.map Entry.silent
    news := [] }

/-- What one sees after the commands that do more than listen, but for all that is published. -/
def unheard (commands : List Command) (views : List View) : List View :=
  ((commands.zip views).filter fun seen => !seen.1.listens).map fun seen => seen.2.silent

lemma unheard_of_listens {command : Command} (hlistens : command.listens = true)
    (commands : List Command) (view : View) (views : List View) :
    unheard (command :: commands) (view :: views) = unheard commands views := by
  unfold unheard
  rw [List.zip_cons_cons, List.filter_cons_of_neg (by simp [hlistens])]

lemma unheard_cons {command : Command} (hlistens : command.listens = false)
    (commands : List Command) (view : View) (views : List View) :
    unheard (command :: commands) (view :: views) = view.silent :: unheard commands views := by
  unfold unheard
  rw [List.zip_cons_cons, List.filter_cons_of_pos (by simp [hlistens]), List.map_cons]

/-- The session without feeds and readers. -/
def silent (s : Session) : Session := { exchange := s.exchange.silent }

lemma addTap_silent (s : Session) (label : TapLabel) (feed : FeedId) :
    (s.addTap label feed).silent = s.silent := rfl

lemma tapAll_silent (capacities : List Nat) (x : Exchange) :
    (tapAll capacities x).silent = { exchange := x.silent } := by
  let motive (s : Session) : Prop := s.silent = { exchange := x.silent }
  refine List.foldlRecOn (motive := motive) _ _ ?_ ?_
  · refine List.foldlRecOn (motive := motive) _ _ rfl fun s hs i _ => ?_
    exact (addTap_silent s _ _).trans hs
  · intro s hs entry _
    obtain ⟨call, c⟩ := entry
    cases call with
    | none => exact hs
    | some call =>
      dsimp only [addOwnTap, motive]
      split
      · exact (addTap_silent s _ _).trans hs
      · exact hs

/-- A session opens the same if nobody listens. -/
theorem openWith_silent (capacities : List Nat) (drafts : List Draft)
    (usual other : Delivery.Settings) (draws : Nat → Nat → Nat) (quiet : Bool) :
    openWith [] (drafts.map (Draft.silent usual)) other draws true =
      ((openWith capacities drafts usual draws quiet).1,
        (openWith capacities drafts usual draws quiet).2.silent) := by
  let begun : Exchange := .withFeeds capacities 1
  have hbuilt : Exchange.addDrafts (.withFeeds [] 1) other draws
      (drafts.map (Draft.silent usual)) = ((begun.addDrafts usual draws drafts).1,
        (begun.addDrafts usual draws drafts).2.silent) := by
    have hsilent (draft : Draft) (draws : Nat → Nat) := draft.plan_silent usual other draws
    exact addDrafts_exchange builds_ofFeeds hsilent begun drafts draws
  rw [openWith_eq, openWith_eq]
  dsimp only
  rw [hbuilt]
  cases quiet with
  | true => rfl
  | false => exact congrArg (Prod.mk _) (tapAll_silent capacities _).symm

/-- A command that does more than listen does the same if nobody listens. -/
theorem execute_silent (hs : s.exchange.Ready) (h : s.exchange.IsUnwatched) {command : Command}
    (hwatches : command.watches = false) (hlistens : command.listens = false) :
    s.silent.execute command = ((s.execute command).1.silent, (s.execute command).2.silent) := by
  cases hplain : command.isPlain with
  | true =>
    rw [Answer.silent_of_ne (execute_ne_info hplain s)]
    exact execute_session isLawful_ofFeeds h hs hplain
  | false =>
    cases command with
    | runWatched => cases hwatches
    | info c => exact onCall_session (e := ofFeeds) Answer.silent rfl fun call => rfl
    | subscribe | unsubscribe => cases hlistens
    | _ => cases hplain

/-- Listening changes nothing but the feeds. -/
lemma execute_listens {command : Command} (hlistens : command.listens = true) (s : Session) :
    (s.execute command).2.silent = s.silent := by
  cases command with
  | subscribe c =>
    unfold execute onCall
    dsimp only
    split
    · rfl
    · split
      · rfl
      · rfl
  | unsubscribe => rfl
  | _ => cases hlistens

lemma collect_silent (s : Session) : s.collect.2.silent = s.silent := by
  obtain ⟨feeds, hfeeds⟩ := exchange_collect s
  unfold silent
  rw [hfeeds]
  rfl

theorem step_silent (hs : s.exchange.Ready) (h : s.exchange.IsUnwatched) {command : Command}
    (hwatches : command.watches = false) (hlistens : command.listens = false) :
    s.silent.step command = ((s.step command).1.silent, (s.step command).2.silent) := by
  have hstates (t : Session) : t.collect.2.states = t.states := by
    obtain ⟨feeds, hfeeds⟩ := exchange_collect t
    unfold states
    rw [hfeeds]
  have hsilent (t : Session) : t.silent.states = t.states := states_session (e := ofFeeds) t
  have hcollect (t : Session) : t.silent.collect = ([], t.silent) := rfl
  have hjournal (t : Session) :
      t.silent.exchange.journal = t.exchange.journal.map Entry.silent := rfl
  unfold step
  rw [execute_silent hs h hwatches hlistens]
  dsimp only
  rw [hcollect]
  dsimp only
  rw [hsilent, hjournal, hjournal, List.length_map, List.length_map, ← List.map_take,
    ← List.map_reverse, collect_silent]
  unfold View.silent
  dsimp only
  rw [hstates]

lemma step_listens {command : Command} (hlistens : command.listens = true) (s : Session) :
    (s.step command).2.silent = s.silent :=
  (collect_silent _).trans (execute_listens hlistens s)

/-- After any commands one has seen the same. -/
theorem steps_silent (hs : s.exchange.Ready) (h : s.exchange.IsUnwatched) (commands : List Command)
    (hwatches : ∀ command ∈ commands, command.watches = false) :
    s.silent.steps (commands.filter fun command => !command.listens) =
      (unheard commands (s.steps commands).1, (s.steps commands).2.silent) := by
  induction commands generalizing s with
  | nil => rfl
  | cons command commands ih =>
    obtain ⟨hfirst, hrest⟩ := List.forall_mem_cons.mp hwatches
    have hnext : (s.step command).2.exchange.Ready := kept_step isKept_ready s command hs
    have hunwatched : (s.step command).2.exchange.IsUnwatched :=
      alarmIn_step isLawful_ofFeeds.retries h command
    have hseen := ih hnext hunwatched hrest
    cases hlistens : command.listens with
    | true =>
      rw [step_listens hlistens] at hseen
      rw [List.filter_cons_of_neg (by simp [hlistens]), hseen, steps]
      dsimp only
      rw [unheard_of_listens hlistens]
    | false =>
      rw [List.filter_cons_of_pos (by simp [hlistens]), steps, step_silent hs h hfirst hlistens]
      dsimp only
      rw [hseen, steps]
      dsimp only
      rw [unheard_cons hlistens]

end Session

namespace Exchange

open Erasure

section Silent

variable {x : Exchange}

lemma runnable_silent (x : Exchange) (c : CallId) :
    x.silent.runnable c = (x.runnable c).map Plan.silent :=
  runnable_exchange (e := ofFeeds) x c

lemma opening_silent (x : Exchange) (manner : Manner) (c : CallId) (plan : Plan) :
    x.silent.opening manner c plan.silent = (x.opening manner c plan).silent :=
  opening_exchange isLawful_ofFeeds x manner c plan

variable (h : x.IsUnwatched)
include h

lemma perform_silent (deed : Deed) (c : CallId) :
    x.silent.perform deed c = ((x.perform deed c).1, (x.perform deed c).2.silent) :=
  perform_exchange isLawful_ofFeeds h deed c

variable (hx : x.Ready)
include hx

lemma run_silent (c : CallId) : x.silent.run c = ((x.run c).1, (x.run c).2.silent) :=
  run_exchange isLawful_ofFeeds h hx c

lemma runAsync_silent (c : CallId) :
    x.silent.runAsync c = ((x.runAsync c).1, (x.runAsync c).2.silent) :=
  runAsync_exchange isLawful_ofFeeds h hx c

lemma callOnce_silent (plan : Plan) :
    x.silent.callOnce plan.silent = ((x.callOnce plan).1, (x.callOnce plan).2.silent) :=
  callOnce_exchange builds_ofFeeds isLawful_ofFeeds h hx plan

end Silent

/-- Both have come to the same, but for what is published. -/
def SameSilent {α : Type} (made made' : α × Exchange) : Prop :=
  made'.1 = made.1 ∧ made'.2.silent = made.2.silent

lemma SameSilent.of_eq {α : Type} {made made' : α × Exchange}
    (h : (made'.1, made'.2.silent) = (made.1, made.2.silent)) : SameSilent made made' :=
  Prod.mk.inj h

section Same

variable {y y' : Exchange} (hy : y.Ready) (hy' : y'.Ready) (h : y.IsUnwatched)
  (h' : y'.IsUnwatched) (hsilent : y'.silent = y.silent)
include hy hy' h h' hsilent

lemma run_sameSilent (c : CallId) : SameSilent (y.run c) (y'.run c) :=
  .of_eq (by rw [← run_silent h' hy', hsilent, run_silent h hy])

lemma runAsync_sameSilent (c : CallId) : SameSilent (y.runAsync c) (y'.runAsync c) :=
  .of_eq (by rw [← runAsync_silent h' hy', hsilent, runAsync_silent h hy])

lemma callOnce_sameSilent {plan plan' : Plan} (hplan : plan'.silent = plan.silent) :
    SameSilent (y.callOnce plan) (y'.callOnce plan') :=
  .of_eq (by rw [← callOnce_silent h' hy', hsilent, hplan, callOnce_silent h hy])

omit hy hy' in
lemma perform_sameSilent (deed : Deed) (c : CallId) :
    SameSilent (y.perform deed c) (y'.perform deed c) :=
  .of_eq (by rw [← perform_silent h', hsilent, perform_silent h])

/-- What the steps of a run lead to, they lead to on the other exchange. -/
theorem exists_opening_reaches_of_silent {manner : Manner} {c : CallId} {plan : Plan}
    (hrunnable : y.runnable c = .ok plan) :
    ∃ plan', y'.runnable c = .ok plan' ∧ ∀ s, Reaches Scene.step (y.opening manner c plan) s →
      ∃ s', Reaches Scene.step (y'.opening manner c plan') s' ∧ s'.silent = s.silent := by
  have hrunnable' := runnable_silent y' c
  rw [hsilent, runnable_silent, hrunnable] at hrunnable'
  cases hother : y'.runnable c with
  | error reply =>
    rw [hother] at hrunnable'
    cases hrunnable'
  | ok plan' =>
    rw [hother] at hrunnable'
    have hplan : plan.silent = plan'.silent := Except.ok.inj hrunnable'
    have hopening : (y'.opening manner c plan').silent = (y.opening manner c plan).silent := by
      rw [← opening_silent, hsilent, ← hplan, opening_silent]
    refine ⟨plan', rfl, fun s hreaches => ?_⟩
    exact exists_reaches isLawful_ofFeeds (hy.opening hrunnable manner) (h.of_alarm rfl)
      (hy'.opening hother manner) (h'.of_alarm rfl) hopening hreaches

end Same

end Exchange

namespace Session

open Erasure Exchange

variable {capacities : List Nat} {drafts : List Draft} {usual : Delivery.Settings}

lemma isUnwatched_openWith (capacities : List Nat) (drafts : List Draft)
    (usual : Delivery.Settings) (draws : Nat → Nat → Nat) (quiet : Bool) :
    (openWith capacities drafts usual draws quiet).2.exchange.IsUnwatched := by
  intro alarm hset
  rw [alarm_openWith] at hset
  cases hset

/-- A session in which others listen, beside one in which nobody does. -/
theorem steps_openWith_silent (capacities : List Nat) (drafts : List Draft)
    (usual other : Delivery.Settings) (draws : Nat → Nat → Nat) (quiet : Bool)
    {commands : List Command} (hwatches : ∀ command ∈ commands, command.watches = false) :
    let opened := openWith capacities drafts usual draws quiet
    let seen := opened.2.steps commands
    let deaf := openWith [] (drafts.map (Draft.silent usual)) other draws true
    let there := deaf.2.steps (commands.filter fun command => !command.listens)
    deaf.1 = opened.1 ∧ there.1 = unheard commands seen.1 ∧ there.2 = seen.2.silent := by
  intro opened seen deaf there
  have hdeaf : deaf = (opened.1, opened.2.silent) :=
    openWith_silent capacities drafts usual other draws quiet
  have hready : opened.2.exchange.Ready := ready_openWith capacities drafts usual draws quiet
  have hunwatched := isUnwatched_openWith capacities drafts usual draws quiet
  have hsteps := steps_silent hready hunwatched commands hwatches
  dsimp only [there]
  rw [hdeaf, hsteps]
  exact ⟨rfl, rfl, rfl⟩

/-- Whether anybody listens makes no difference to what calls do. They may have feeds of their own
or shared ones of any capacity, and on these any readers, which keep up, lag behind, come late or
leave. As long as no other thread acts upon an event, all that one sees after each command but what
is published, and all that becomes of the exchange, is as in a session of the same calls without
feeds, where nothing is published and no number is used up. So two sessions show the same if their
drafts and commands differ only in who listens.

It is the same between the commands. On two exchanges that differ only in who listens runs of both
kinds, deeds and one-shot calls come to the same, and what the single steps of a run lead to on one
of them, they lead to on the other. -/
theorem listening_makes_no_difference (capacities : List Nat) (drafts : List Draft)
    (usual : Delivery.Settings) (draws : Nat → Nat → Nat) (quiet : Bool) (commands : List Command)
    (hwatches : ∀ command ∈ commands, command.watches = false) :
    let opened := openWith capacities drafts usual draws quiet
    let seen := opened.2.steps commands
    let asked := commands.filter fun command => !command.listens
    (∀ other, let deaf := openWith [] (drafts.map (Draft.silent usual)) other draws true
      let there := deaf.2.steps asked
      deaf.1 = opened.1 ∧ there.1 = unheard commands seen.1 ∧ there.2 = seen.2.silent) ∧
    (∀ capacities' drafts' usual' quiet' commands',
      drafts'.map (Draft.silent usual') = drafts.map (Draft.silent usual) →
      (commands'.filter fun command => !command.listens) = asked →
      let opened' := openWith capacities' drafts' usual' draws quiet'
      let seen' := opened'.2.steps commands'
      opened'.1 = opened.1 ∧ unheard commands' seen'.1 = unheard commands seen.1 ∧
        seen'.2.silent = seen.2.silent) ∧
    (∀ y y' : Exchange, y.Ready → y'.Ready → y.IsUnwatched → y'.IsUnwatched →
      y'.silent = y.silent →
      (∀ c, SameSilent (y.run c) (y'.run c) ∧ SameSilent (y.runAsync c) (y'.runAsync c)) ∧
      (∀ deed c, SameSilent (y.perform deed c) (y'.perform deed c)) ∧
      (∀ plan plan', plan'.silent = plan.silent →
        SameSilent (y.callOnce plan) (y'.callOnce plan')) ∧
      ∀ manner c plan, y.runnable c = .ok plan → ∃ plan', y'.runnable c = .ok plan' ∧
        ∀ s, Reaches Scene.step (y.opening manner c plan) s →
          ∃ s', Reaches Scene.step (y'.opening manner c plan') s' ∧ s'.silent = s.silent) := by
  intro opened seen asked
  refine ⟨?_, ?_, ?_⟩
  · intro other
    exact steps_openWith_silent capacities drafts usual other draws quiet hwatches
  · intro capacities' drafts' usual' quiet' commands' hdrafts hasked opened' seen'
    have hwatches' : ∀ command ∈ commands', command.watches = false := by
      intro command hmem
      cases hwatch : command.watches with
      | false => rfl
      | true =>
        have hkept : command ∈ asked := by
          rw [← hasked]
          exact List.mem_filter.mpr ⟨hmem, by simp [command.listens_of_watches hwatch]⟩
        exact hwatch.symm.trans (hwatches command (List.mem_of_mem_filter hkept))
    obtain ⟨hbuilt, hviews, hend⟩ :=
      steps_openWith_silent capacities drafts usual usual draws quiet hwatches
    obtain ⟨hbuilt', hviews', hend'⟩ :=
      steps_openWith_silent capacities' drafts' usual' usual draws quiet' hwatches'
    rw [hdrafts] at hbuilt' hviews' hend'
    rw [hasked] at hviews' hend'
    exact ⟨hbuilt'.symm.trans hbuilt, hviews'.symm.trans hviews, hend'.symm.trans hend⟩
  · intro y y' hy hy' h h' hsilent
    refine ⟨fun c => ⟨?_, ?_⟩, ?_, ?_, ?_⟩
    · exact run_sameSilent hy hy' h h' hsilent c
    · exact runAsync_sameSilent hy hy' h h' hsilent c
    · exact perform_sameSilent h h' hsilent
    · intro plan plan' hplan
      exact callOnce_sameSilent hy hy' h h' hsilent hplan
    · intro manner c plan hrunnable
      exact exists_opening_reaches_of_silent hy hy' h h' hsilent hrunnable

/-- Two calls with the same feed or none. The first one is retried once; from its callback it
disposes its own handle and runs the second one, whose callback panics. -/
def overheardDrafts (feed : Option FeedId) : List Draft :=
  [{ body := some fun n => .done (if n = 1 then .error .canceled else .ok ⟨true, "done"⟩)
     limit := .ofNat 1
     onSuccess := some fun _ => .act .dispose 0 fun _ => .run 1 fun _ => .done ()
     feed },
   { body := some fun _ => .done (.ok ⟨true, "other"⟩)
     onSuccess := some fun _ => .panic "late"
     feed }]

/-- The two calls share a feed that keeps one event, so that its readers lag behind; one of them
comes late, and all of them leave before the end. Then the two calls are run where nobody listens. -/
theorem listening_makes_no_difference_to_nested_calls :
    let usual : Delivery.Settings := ⟨.latest, 1, 64⟩
    let loud := (openWith [1] (overheardDrafts (some 0)) usual (fun _ _ => 0) false).2
    let still := (openWith [] (overheardDrafts none) usual (fun _ _ => 0) true).2
    let commands : List Command := [.subscribe 1, .run 0, .unsubscribe, .run 1, .info 0]
    let asked : List Command := [.run 0, .run 1, .info 0]
    (∀ command ∈ commands, command.watches = false) ∧
      unheard asked (still.steps asked).1 = unheard commands (loud.steps commands).1 ∧
      (still.steps asked).2.silent = (loud.steps commands).2.silent ∧
      (still.steps asked).2.exchange.journal.length = 15 ∧
      (still.steps asked).2.exchange.nextSeq = 1 ∧
      (loud.steps commands).2.exchange.nextSeq = 9 := by
  intro usual loud still commands asked
  have hwatches : ∀ command ∈ commands, command.watches = false := by decide
  obtain ⟨-, hsame, -⟩ := listening_makes_no_difference [1] (overheardDrafts (some 0)) usual
    (fun _ _ => 0) false commands hwatches
  obtain ⟨-, hviews, hend⟩ := hsame [] (overheardDrafts none) usual true asked rfl rfl
  refine ⟨hwatches, hviews, hend, ?_, ?_, ?_⟩
  · decide +kernel
  · decide +kernel
  · decide +kernel

end Session

end Redial
