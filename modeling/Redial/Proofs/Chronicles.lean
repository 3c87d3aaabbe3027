import Redial.Proofs.Scenes
import Redial.Session

/-!
# Chronicles

All that can happen on an exchange in the hand of one thread, one thing after the other: steps of
runs and of user code however they are nested, deeds, runs that begin and end, calls and feeds that
are added, readers that come, read and leave. Runs may take turns, and a reader may read at any
time; a session is a chronicle in which everybody reads after each command.
-/

namespace Redial

open StateTransition

/-- What a reader of a feed has read. -/
structure Receipt where
  feed : FeedId
  reader : Nat
  reading : Reading Event

/-- What the reader has read, if the receipt is one of this reader. -/
def Receipt.readingOf (feed : FeedId) (reader : Nat) (receipt : Receipt) : Option (Reading Event) :=
  if receipt.feed = feed ∧ receipt.reader = reader then some receipt.reading else none

namespace Exchange

/-- One thing that happens on an exchange, and what is read by it. -/
inductive Happens : Exchange → List Receipt → Exchange → Prop where
  | step {s t : Scene} (h : s.step = some t) : Happens s.exchange [] t.exchange
  | deed (x : Exchange) (deed : Deed) (c : CallId) : Happens x [] (x.perform deed c).2
  | release (x : Exchange) (c : CallId) : Happens x [] (x.release c)
  /-- A run begins or ends. -/
  | setPresence (x : Exchange) (c : CallId) (presence : Presence) :
      Happens x [] (x.setPresence c presence)
  /-- What decides when other threads act is set. -/
  | setTimes (x : Exchange) (clock timer : Nat) (staffed : Bool) (alarm : Option Alarm) :
      Happens x [] { x with clock, timer, staffed, alarm }
  | openFeed (x : Exchange) (capacity : Nat) : Happens x [] (x.openFeed capacity).2
  | addCall (x : Exchange) (entry : Option Call) :
      Happens x [] { x with calls := x.calls ++ [entry] }
  | subscribe (x : Exchange) (feed : FeedId) :
      Happens x [] { x with feeds := x.feeds.modify feed Feed.subscribe }
  | unsubscribe (x : Exchange) (feed : FeedId) (reader : Nat) :
      Happens x [] { x with feeds := x.feeds.modify feed (·.unsubscribe reader) }
  | read (x : Exchange) (feed : FeedId) (reader : Nat) {f : Feed Event}
      (h : x.feeds[feed]? = some f) :
      Happens x [⟨feed, reader, (f.read reader).1⟩]
        { x with feeds := x.feeds.set feed (f.read reader).2 }

/-- Things that happen one after the other, and what is read by them. -/
inductive Chronicle : Exchange → List Receipt → Exchange → Prop where
  | nil (x : Exchange) : Chronicle x [] x
  | snoc {x y z : Exchange} {receipts new : List Receipt} (h : Chronicle x receipts y)
      (hlast : Happens y new z) : Chronicle x (receipts ++ new) z

namespace Chronicle

variable {x y z : Exchange} {receipts new : List Receipt} {c : CallId} {plan : Plan}

lemma single (h : Happens x receipts y) : Chronicle x receipts y := .snoc (.nil x) h

lemma append (h : Chronicle x receipts y) (h' : Chronicle y new z) :
    Chronicle x (receipts ++ new) z := by
  induction h' with
  | nil => rwa [List.append_nil]
  | snoc _ hlast ih =>
    rw [← List.append_assoc]
    exact .snoc ih hlast

/-- Nothing is read on the way. -/
lemma trans (h : Chronicle x [] y) (h' : Chronicle y [] z) : Chronicle x [] z := h.append h'

lemma deed (x : Exchange) (deed : Deed) (c : CallId) : Chronicle x [] (x.perform deed c).2 :=
  single (.deed x deed c)

lemma dispose (x : Exchange) (c : CallId) : Chronicle x [] (x.dispose c).2 := deed x .dispose c

lemma setTimer (x : Exchange) (timer : Nat) : Chronicle x [] { x with timer } :=
  single (.setTimes x x.clock timer x.staffed x.alarm)

lemma setAlarm (x : Exchange) (alarm : Option Alarm) : Chronicle x [] { x with alarm } :=
  single (.setTimes x x.clock x.timer x.staffed alarm)

lemma setStaffed (x : Exchange) (staffed : Bool) : Chronicle x [] { x with staffed } :=
  single (.setTimes x x.clock x.timer staffed x.alarm)

lemma ring (x : Exchange) (alarm : Alarm) : Chronicle x [] (x.ring alarm) :=
  (dispose x alarm.target).trans (setAlarm _ _)

lemma elapse (x : Exchange) (nanos : Nat) : Chronicle x [] (x.elapse nanos) := by
  have hlater : Chronicle x [] { x with clock := x.clock + nanos } :=
    single (.setTimes x (x.clock + nanos) x.timer x.staffed x.alarm)
  unfold Exchange.elapse
  dsimp only
  split
  · split
    · exact hlater.trans (ring _ _)
    · exact hlater
  · exact hlater

lemma reaches {s t : Scene} (h : Reaches Scene.step s t) : Chronicle s.exchange [] t.exchange := by
  induction h with
  | refl => exact .nil _
  | tail _ hstep ih => exact ih.trans (single (.step hstep))

/-- A run begins, makes its steps and ends, with the runs inside it. -/
lemma run (x : Exchange) (c : CallId) : Chronicle x [] (x.run c).2 := by
  cases hrunnable : x.runnable c with
  | error reply =>
    rw [run_of_error hrunnable]
    exact .nil x
  | ok plan =>
    obtain ⟨how, y, hran, hleads⟩ := leadsTo_run hrunnable
    have hopened : Chronicle x [] (x.opening .blocking c plan).exchange :=
      single (.setPresence x c .busy)
    rw [hran]
    exact (hopened.trans (reaches hleads.reaches)).trans (single (.setPresence y c .here))

lemma runAsync (x : Exchange) (c : CallId) : Chronicle x [] (x.runAsync c).2 := by
  cases hrunnable : x.runnable c with
  | error reply =>
    rw [runAsync_of_error hrunnable]
    exact .nil x
  | ok plan =>
    obtain ⟨how, y, hran, hleads⟩ := leadsTo_runAsync hrunnable
    have hopened : Chronicle x [] (x.opening .asynchronous c plan).exchange :=
      single (.setPresence x c .gone)
    rw [hran]
    exact (hopened.trans (reaches hleads.reaches)).trans (single (.release y c))

lemma runWatched (x : Exchange) (c : CallId) (n : Nat) :
    Chronicle x [] (Session.runWatched c n x).2 := by
  have hran (alarm : Option Alarm) : Chronicle x [] (Exchange.run c { x with alarm }).2 :=
    (setAlarm x alarm).trans (run _ c)
  unfold Session.runWatched
  dsimp only
  split
  · exact ((hran _).trans (elapse _ _)).trans (setAlarm _ none)
  · exact (hran _).trans (setAlarm _ none)

lemma runTimed (x : Exchange) (c : CallId) : Chronicle x [] (Session.runTimed c x).2 :=
  (setTimer x 0).trans (runAsync _ c)

lemma spawn (x : Exchange) (c : CallId) (disposeAfter : Option Nat) :
    Chronicle x [] (Session.spawn c disposeAfter x).2 := by
  have hran (alarm : Option Alarm) : Chronicle x [] (Session.runTimed c { x with alarm }).2 :=
    (setAlarm x alarm).trans (runTimed _ c)
  unfold Session.spawn
  split
  · exact runTimed x c
  · exact (dispose x c).trans (runTimed _ c)
  · dsimp only
    split
    · exact (((hran _).trans (setTimer _ _)).trans (ring _ _)).trans (setAlarm _ none)
    · exact (hran _).trans (setAlarm _ none)

lemma runUnstaffed (x : Exchange) (c : CallId) : Chronicle x [] (Session.runUnstaffed c x).2 :=
  ((setStaffed x false).trans (runAsync _ c)).trans (setStaffed _ true)

lemma addPlan (x : Exchange) (plan : Plan) (listed : Bool) :
    Chronicle x [] (x.addPlan plan listed) := by
  unfold Exchange.addPlan
  cases plan.feed with
  | none => exact single (.addCall x _)
  | shared feed => exact single (.addCall x _)
  | own => exact (single (.openFeed x _)).trans (single (.addCall _ _))

/-- A call that is built, run and dropped in one go. -/
lemma callOnce (x : Exchange) (plan : Plan) : Chronicle x [] (x.callOnce plan).2 :=
  ((addPlan x plan false).trans (run _ _)).trans (deed _ .drop _)

lemma addDrafts (x : Exchange) (usual : Delivery.Settings) (draws : Nat → Nat → Nat)
    (drafts : List Draft) : Chronicle x [] (x.addDrafts usual draws drafts).2 := by
  let motive (built : List (Except DraftError Unit) × Exchange) : Prop := Chronicle x [] built.2
  refine List.foldlRecOn (motive := motive) drafts _ (.nil x) fun built hbuilt draft _ => ?_
  refine hbuilt.trans ?_
  dsimp only [addDraft]
  split
  · exact single (.addCall _ none)
  · exact addPlan _ _ true

end Chronicle

end Exchange

namespace Session

open Exchange

variable {s : Session}

lemma chronicle_openWith (capacities : List Nat) (drafts : List Draft) (usual : Delivery.Settings)
    (draws : Nat → Nat → Nat) (quiet : Bool) :
    Chronicle (.withFeeds capacities 1) []
      (openWith capacities drafts usual draws quiet).2.exchange := by
  let begun : Exchange := .withFeeds capacities 1
  let motive (s : Session) : Prop := Chronicle begun [] s.exchange
  have hbuilt : motive { exchange := (begun.addDrafts usual draws drafts).2 } :=
    Chronicle.addDrafts begun usual draws drafts
  have htap {s : Session} (hs : motive s) (label : TapLabel) (feed : FeedId) :
      motive (s.addTap label feed) := hs.trans (.single (.subscribe s.exchange feed))
  show motive (openWith capacities drafts usual draws quiet).2
  unfold openWith
  dsimp only
  split
  · exact hbuilt
  · refine List.foldlRecOn (motive := motive) _ _ ?_ fun s hs entry _ => ?_
    · exact List.foldlRecOn (motive := motive) _ _ hbuilt fun s hs i _ => htap hs _ i
    · split
      · split
        · exact htap hs _ _
        · exact hs
      · exact hs

lemma chronicle_onCall {c : CallId} {f : Call → Answer × Session}
    (hf : ∀ call, Chronicle s.exchange [] (f call).2.exchange) :
    Chronicle s.exchange [] (s.onCall c f).2.exchange := by
  unfold onCall
  split
  · exact .nil _
  · exact hf _

lemma chronicle_execute (s : Session) (command : Command) :
    Chronicle s.exchange [] (s.execute command).2.exchange := by
  cases command with
  | run c =>
    unfold execute
    dsimp only
    split
    · exact .nil _
    · exact .run _ c
  | runWatched c n => exact chronicle_onCall fun _ => .runWatched _ c n
  | runAsync c => exact chronicle_onCall fun _ => .runTimed _ c
  | spawn c disposeAfter => exact chronicle_onCall fun _ => .spawn _ c disposeAfter
  | runUnstaffed c => exact chronicle_onCall fun _ => .runUnstaffed _ c
  | close c => exact .deed _ .close c
  | dispose c => exact .dispose _ c
  | isSignalled c =>
    unfold execute
    dsimp only
    split
    · exact .nil _
    · exact .nil _
  | info c => exact chronicle_onCall fun _ => .nil _
  | debug c => exact chronicle_onCall fun _ => .nil _
  | subscribe c =>
    refine chronicle_onCall fun call => ?_
    split
    · exact .nil _
    · exact .single (.subscribe _ _)
  | unsubscribe =>
    let motive (feeds : List (Feed Event)) : Prop :=
      Chronicle s.exchange [] { s.exchange with feeds := feeds }
    exact List.foldlRecOn (motive := motive) s.taps _ (.nil _) fun feeds hfeeds tap _ =>
      hfeeds.trans (.single (.unsubscribe { s.exchange with feeds := feeds } tap.feed tap.reader))
  | drop c =>
    have hdropped : Chronicle s.exchange [] (s.update (·.drop c)).2.exchange := .deed _ .drop c
    unfold execute
    dsimp only
    split
    case h_1 hdrop | h_2 hdrop =>
      rw [hdrop] at hdropped
      exact hdropped

end Session

/-- What a tap has received at one time. -/
structure Intake where
  tap : Tap
  readings : List (Reading Event)

namespace Intake

def receipts (i : Intake) : List Receipt := i.readings.map (Receipt.mk i.tap.feed i.tap.reader)

/-- What one sees of it. -/
def news? (i : Intake) : Option (TapLabel × List (Reading Event)) :=
  if i.readings.isEmpty then none else some (i.tap.label, i.readings)

end Intake

lemma Feed.read_of_silent {α : Type} {f g : Feed α} {r : Nat} {reading : Reading α}
    (h : f.read r = (reading, g)) (hsilent : reading = .empty ∨ reading = .closed) : g = f := by
  unfold Feed.read at h
  split at h
  · cases h
    rfl
  · split at h
    · cases h
      rcases hsilent with hsilent | hsilent <;> cases hsilent
    · split at h
      · cases h
        rcases hsilent with hsilent | hsilent <;> cases hsilent
      · cases h
        rfl

namespace Session

open Exchange

lemma set_feed_self {x : Exchange} {feed : FeedId} {f : Feed Event} (h : x.feeds[feed]? = some f) :
    ({ x with feeds := x.feeds.set feed f } : Exchange) = x := by
  obtain ⟨hlt, rfl⟩ := List.getElem?_eq_some_iff.mp h
  rw [List.set_getElem_self]

lemma chronicle_readAll (feed : FeedId) (reader : Nat) (n : Nat) {x : Exchange} {f : Feed Event}
    (h : x.feeds[feed]? = some f) :
    Chronicle x ((Feed.readAll.go reader n f).1.map (Receipt.mk feed reader))
      { x with feeds := x.feeds.set feed (Feed.readAll.go reader n f).2 } := by
  induction n generalizing x f with
  | zero =>
    rw [Feed.readAll.go, set_feed_self h]
    exact .nil x
  | succ n ih =>
    have hread : Happens x [⟨feed, reader, (f.read reader).1⟩]
        { x with feeds := x.feeds.set feed (f.read reader).2 } := .read x feed reader h
    rw [Feed.readAll.go]
    split
    case h_1 g heq =>
      rw [Feed.read_of_silent heq (Or.inl rfl), set_feed_self h]
      exact .nil x
    case h_2 g heq =>
      rw [Feed.read_of_silent heq (Or.inr rfl), set_feed_self h]
      exact .nil x
    case h_3 reading g _ _ heq =>
      obtain ⟨hlt, -⟩ := List.getElem?_eq_some_iff.mp h
      rw [heq] at hread
      have hrest := ih (x := { x with feeds := x.feeds.set feed g }) (List.getElem?_set_self hlt)
      rw [List.set_set] at hrest
      exact (Chronicle.single hread).append hrest

/-- The tap takes in what is there for it, and one sees it. -/
def Takes (tap : Tap) (before after : List (TapLabel × List (Reading Event)) × Session) : Prop :=
  ∃ intake : Intake, intake.tap = tap ∧ after.1 = before.1 ++ intake.news?.toList ∧
    Chronicle before.2.exchange intake.receipts after.2.exchange

lemma exists_intakes {look : List (TapLabel × List (Reading Event)) × Session → Tap →
      List (TapLabel × List (Reading Event)) × Session}
    (hlook : ∀ seen tap, Takes tap seen (look seen tap)) (taps : List Tap)
    (seen : List (TapLabel × List (Reading Event)) × Session) :
    ∃ intakes : List Intake, intakes.map Intake.tap = taps ∧
      (taps.foldl look seen).1 = seen.1 ++ intakes.filterMap Intake.news? ∧
      Chronicle seen.2.exchange (intakes.flatMap Intake.receipts)
        (taps.foldl look seen).2.exchange := by
  induction taps generalizing seen with
  | nil => exact ⟨[], rfl, (List.append_nil _).symm, .nil _⟩
  | cons tap taps ih =>
    obtain ⟨intake, rfl, hseen, htaken⟩ := hlook seen tap
    obtain ⟨intakes, rfl, hnews, hread⟩ := ih (look seen intake.tap)
    refine ⟨intake :: intakes, rfl, ?_, htaken.append hread⟩
    rw [List.foldl_cons, hnews, hseen, List.append_assoc, List.filterMap_cons]
    cases intake.news? <;> rfl

/-- Every reader reads in its turn, and one sees what it has received. -/
theorem chronicle_collect (s : Session) : ∃ intakes : List Intake,
    intakes.map Intake.tap = s.taps ∧ s.collect.1 = intakes.filterMap Intake.news? ∧
      Chronicle s.exchange (intakes.flatMap Intake.receipts) s.collect.2.exchange := by
  refine exists_intakes (fun seen tap => ?_) s.taps ([], s)
  dsimp only
  split
  case h_1 => exact ⟨⟨tap, []⟩, rfl, (List.append_nil _).symm, .nil _⟩
  case h_2 feed hfeed =>
    refine ⟨⟨tap, (feed.readAll tap.reader).1⟩, rfl, ?_, chronicle_readAll _ _ _ hfeed⟩
    unfold Intake.news?
    dsimp only
    split
    · exact (List.append_nil _).symm
    · rfl

/-- A session is a chronicle, and what is read on the way is what the views show. -/
theorem chronicle_steps (s : Session) (commands : List Command) :
    ∃ intakes : List (List Intake),
      (s.steps commands).1.map View.news = intakes.map (·.filterMap Intake.news?) ∧
      Chronicle s.exchange (intakes.flatten.flatMap Intake.receipts)
        (s.steps commands).2.exchange := by
  induction commands generalizing s with
  | nil => exact ⟨[], rfl, .nil _⟩
  | cons command commands ih =>
    obtain ⟨intakes, -, hnews, hread⟩ := chronicle_collect (s.execute command).2
    obtain ⟨later, hlater, hrest⟩ := ih (s.step command).2
    have hstep := (chronicle_execute s command).append hread
    refine ⟨intakes :: later, ?_, ?_⟩
    · rw [List.map_cons, ← hlater, ← hnews]
      rfl
    · rw [List.flatten_cons, List.flatMap_append]
      exact hstep.append hrest

theorem exists_chronicle (capacities : List Nat) (drafts : List Draft) (usual : Delivery.Settings)
    (draws : Nat → Nat → Nat) (quiet : Bool) (commands : List Command) :
    ∃ receipts, Chronicle (.withFeeds capacities 1) receipts
      ((openWith capacities drafts usual draws quiet).2.steps commands).2.exchange := by
  obtain ⟨intakes, -, hread⟩ :=
    chronicle_steps (openWith capacities drafts usual draws quiet).2 commands
  exact ⟨_, (chronicle_openWith capacities drafts usual draws quiet).append hread⟩

end Session

end Redial
