import Redial.Proofs.ExchangeSteps
import Redial.Session

/-!
# Commands as operations on the exchange

Every command of a session comes down to a few operations on its exchange: deeds, runs, and changes
of what is neither a call nor in the journal. So what each of them preserves holds after any number
of commands.
-/

namespace Redial

/-- The relation holds wherever the operations of a session lead. -/
structure Exchange.IsKept (R : Exchange → Exchange → Prop) : Prop where
  /-- The calls and the journal stay as they are. -/
  same : ∀ {x y : Exchange}, y.calls = x.calls → y.journal = x.journal → R x y
  trans : ∀ {x y z : Exchange}, R x y → R y z → R x z
  perform : ∀ (x : Exchange) (deed : Deed) (c : CallId), R x (x.perform deed c).2
  run : ∀ (x : Exchange) (c : CallId), R x (x.run c).2
  runAsync : ∀ (x : Exchange) (c : CallId), R x (x.runAsync c).2

namespace Exchange.IsKept

variable {R : Exchange → Exchange → Prop} (h : IsKept R) (x : Exchange) (c : CallId)
include h

lemma refl : R x x := h.same rfl rfl

lemma dispose : R x (x.dispose c).2 := h.perform x .dispose c

lemma ring (alarm : Alarm) : R x (x.ring alarm) :=
  h.trans (h.dispose x alarm.target) (h.same rfl rfl)

lemma setAlarm (alarm : Option Alarm) : R x { x with alarm } := h.same rfl rfl

lemma setTimer (timer : Nat) : R x { x with timer } := h.same rfl rfl

lemma setStaffed (staffed : Bool) : R x { x with staffed } := h.same rfl rfl

lemma elapse (nanos : Nat) : R x (x.elapse nanos) := by
  have hlater : R x { x with clock := x.clock + nanos } := h.same rfl rfl
  unfold Exchange.elapse
  dsimp only
  split
  · split
    · exact h.trans hlater (h.ring _ _)
    · exact hlater
  · exact hlater

lemma runWatched (n : Nat) : R x (Session.runWatched c n x).2 := by
  have hran (alarm : Option Alarm) : R x (Exchange.run c { x with alarm }).2 :=
    h.trans (h.setAlarm x alarm) (h.run _ c)
  unfold Session.runWatched
  dsimp only
  split
  · exact h.trans (h.trans (hran _) (h.elapse _ _)) (h.setAlarm _ none)
  · exact h.trans (hran _) (h.setAlarm _ none)

lemma runTimed : R x (Session.runTimed c x).2 := h.trans (h.setTimer x 0) (h.runAsync _ c)

lemma spawn (disposeAfter : Option Nat) : R x (Session.spawn c disposeAfter x).2 := by
  have hran (alarm : Option Alarm) : R x (Session.runTimed c { x with alarm }).2 :=
    h.trans (h.setAlarm x alarm) (h.runTimed _ c)
  unfold Session.spawn
  split
  · exact h.runTimed x c
  · exact h.trans (h.dispose x c) (h.runTimed _ c)
  · dsimp only
    split
    · exact h.trans (h.trans (h.trans (hran _) (h.setTimer _ _)) (h.ring _ _)) (h.setAlarm _ none)
    · exact h.trans (hran _) (h.setAlarm _ none)

lemma runUnstaffed : R x (Session.runUnstaffed c x).2 :=
  h.trans (h.trans (h.setStaffed x false) (h.runAsync _ c)) (h.setStaffed _ true)

end Exchange.IsKept

namespace Session

variable {R : Exchange → Exchange → Prop} (h : Exchange.IsKept R)
include h

lemma kept_onCall (s : Session) (c : CallId) {f : Call → Answer × Session}
    (hf : ∀ call, R s.exchange (f call).2.exchange) : R s.exchange (s.onCall c f).2.exchange := by
  unfold onCall
  split
  · exact h.refl _
  · exact hf _

lemma kept_collect (s : Session) : R s.exchange s.collect.2.exchange := by
  let motive (seen : List (TapLabel × List (Reading Event)) × Session) : Prop :=
    R s.exchange seen.2.exchange
  refine List.foldlRecOn (motive := motive) s.taps _ (h.refl _) fun seen hseen tap _ => ?_
  dsimp only
  split
  · exact hseen
  · exact h.trans hseen (h.same rfl rfl)

theorem kept_execute (s : Session) (command : Command) :
    R s.exchange (s.execute command).2.exchange := by
  cases command with
  | run c =>
    unfold execute
    dsimp only
    split
    · exact h.refl _
    · exact h.run _ c
  | runWatched c n => exact kept_onCall h s c fun _ => h.runWatched _ c n
  | runAsync c => exact kept_onCall h s c fun _ => h.runTimed _ c
  | spawn c disposeAfter => exact kept_onCall h s c fun _ => h.spawn _ c disposeAfter
  | runUnstaffed c => exact kept_onCall h s c fun _ => h.runUnstaffed _ c
  | close c => exact h.perform _ .close c
  | dispose c => exact h.dispose _ c
  | isSignalled c =>
    unfold execute
    dsimp only
    split
    · exact h.refl _
    · exact h.refl _
  | info c => exact kept_onCall h s c fun _ => h.refl _
  | debug c => exact kept_onCall h s c fun _ => h.refl _
  | subscribe c =>
    refine kept_onCall h s c fun call => ?_
    split
    · exact h.refl _
    · exact h.same rfl rfl
  | unsubscribe => exact h.same rfl rfl
  | drop c =>
    have hdropped : R s.exchange (s.update (·.drop c)).2.exchange := h.perform _ .drop c
    unfold execute
    dsimp only
    split
    case h_1 hdrop =>
      rw [hdrop] at hdropped
      exact hdropped
    case h_2 hdrop =>
      rw [hdrop] at hdropped
      exact hdropped

theorem kept_step (s : Session) (command : Command) : R s.exchange (s.step command).2.exchange :=
  h.trans (kept_execute h s command) (kept_collect h _)

/-- What every operation of a session preserves holds after any number of commands. -/
theorem kept_steps (s : Session) (commands : List Command) :
    R s.exchange (s.steps commands).2.exchange := by
  induction commands generalizing s with
  | nil => exact h.refl _
  | cons command commands ih => exact h.trans (kept_step h s command) (ih _)

end Session

/-- Every call has this property. -/
def Exchange.Every (P : Call → Prop) (x : Exchange) : Prop :=
  ∀ (c : CallId) (call : Call), x.call? c = some call → P call

namespace Exchange.Every

variable {P : Call → Prop} {x y : Exchange}

lemma of_calls (h : x.Every P) (hcalls : y.calls = x.calls) : y.Every P := by
  intro c call hcall
  rw [call?_congr hcalls] at hcall
  exact h c call hcall

lemma of_nil (h : x.calls = []) : x.Every P := by
  intro c call hcall
  simp [call?, h] at hcall

lemma addCall (h : x.Every P) {entry : Option Call} (hentry : ∀ call ∈ entry, P call) :
    Every P { x with calls := x.calls ++ [entry] } := by
  intro c call hcall
  unfold call? at hcall
  rcases Nat.lt_or_ge c x.calls.length with hlt | hge
  · rw [List.getElem?_append_left hlt] at hcall
    exact h c call hcall
  · rw [List.getElem?_append_right hge] at hcall
    cases hindex : c - x.calls.length with
    | zero =>
      rw [hindex] at hcall
      exact hentry call hcall
    | succ index =>
      rw [hindex] at hcall
      cases hcall

variable (h : x.Every P) (hnew : ∀ plan feed listed, P (Plan.toCall plan feed listed))
include h hnew

lemma addPlan (plan : Plan) (listed : Bool) : (x.addPlan plan listed).Every P := by
  have hadd (y : Exchange) (hy : y.calls = x.calls) (feed : Option FeedId) :
      Every P { y with calls := y.calls ++ [some (plan.toCall feed listed)] } := by
    apply (h.of_calls hy).addCall
    intro call hcall
    obtain rfl : plan.toCall feed listed = call := Option.some.inj hcall
    exact hnew plan feed listed
  unfold Exchange.addPlan
  cases plan.feed with
  | none => exact hadd x rfl none
  | shared feed => exact hadd x rfl (some feed)
  | own => exact hadd (x.openFeed plan.delivery.feedRoom).2 rfl (some x.feeds.length)

lemma addDraft (draft : Draft) (usual : Delivery.Settings) (draws : Nat → Nat) :
    (x.addDraft draft usual draws).2.Every P := by
  unfold Exchange.addDraft
  split
  case h_1 => exact h.addCall (by simp)
  case h_2 plan _ => exact h.addPlan hnew plan true

lemma addDrafts (usual : Delivery.Settings) (draws : Nat → Nat → Nat) (drafts : List Draft) :
    (x.addDrafts usual draws drafts).2.Every P := by
  unfold Exchange.addDrafts
  let motive (built : List (Except DraftError Unit) × Exchange) : Prop := built.2.Every P
  exact List.foldlRecOn (motive := motive) drafts _ h
    fun built hbuilt draft _ => hbuilt.addDraft hnew draft usual (draws built.2.calls.length)

end Exchange.Every

namespace Exchange

lemma journal_addPlan (x : Exchange) (plan : Plan) (listed : Bool) :
    (x.addPlan plan listed).journal = x.journal := by
  unfold addPlan
  cases plan.feed with
  | none | shared | own => rfl

lemma journal_addDraft (x : Exchange) (draft : Draft) (usual : Delivery.Settings)
    (draws : Nat → Nat) : (x.addDraft draft usual draws).2.journal = x.journal := by
  unfold addDraft
  split
  case h_1 => rfl
  case h_2 plan _ => exact journal_addPlan x plan true

lemma journal_addDrafts (x : Exchange) (usual : Delivery.Settings) (draws : Nat → Nat → Nat)
    (drafts : List Draft) : (x.addDrafts usual draws drafts).2.journal = x.journal := by
  unfold addDrafts
  let motive (built : List (Except DraftError Unit) × Exchange) : Prop :=
    built.2.journal = x.journal
  exact List.foldlRecOn (motive := motive) drafts _ rfl
    fun built hbuilt draft _ => (journal_addDraft built.2 draft usual _).trans hbuilt

end Exchange

namespace Session

/-- When a session opens, the calls are built and readers are subscribed; nothing else happens. -/
theorem opened_openWith (capacities : List Nat) (drafts : List Draft) (usual : Delivery.Settings)
    (draws : Nat → Nat → Nat) (quiet : Bool) :
    (openWith capacities drafts usual draws quiet).2.exchange.journal = [] ∧
      ∀ P : Call → Prop, (∀ plan feed listed, P (Plan.toCall plan feed listed)) →
        (openWith capacities drafts usual draws quiet).2.exchange.Every P := by
  let built := (Exchange.addDrafts (.withFeeds capacities 1) usual draws drafts).2
  let motive (s : Session) : Prop :=
    s.exchange.calls = built.calls ∧ s.exchange.journal = built.journal
  have hopened : motive (openWith capacities drafts usual draws quiet).2 := by
    unfold openWith
    dsimp only
    split
    · exact ⟨rfl, rfl⟩
    · refine List.foldlRecOn (motive := motive) _ _ ?_ fun s hs entry _ => ?_
      · exact List.foldlRecOn (motive := motive) _ _ ⟨rfl, rfl⟩ fun s hs i _ => hs
      · split
        · split
          · exact hs
          · exact hs
        · exact hs
  refine ⟨hopened.2.trans (Exchange.journal_addDrafts _ usual draws drafts), fun P hnew => ?_⟩
  exact (Exchange.Every.addDrafts (.of_nil rfl) hnew usual draws drafts).of_calls hopened.1

end Session

end Redial
