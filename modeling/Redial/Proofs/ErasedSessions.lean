import Redial.Proofs.Erasures

/-!
# Erasures of sessions

What is forgotten of the exchange of a session makes no difference to commands either, as long as
they have to do with calls alone: they get the same answer and lead to the same, whether something
is forgotten before or afterwards. So it is with building calls from drafts, and with calls that are
built for one run, once it is with building the call of a plan.
-/

namespace Redial

open Exchange

/-- The command has to do with calls alone, and with nothing that can be forgotten of them. -/
def Command.isPlain : Command → Bool
  | .runWatched _ _ | .info _ | .subscribe _ | .unsubscribe => false
  | _ => true

namespace Session

variable {s : Session} {c : CallId}

/-- An alarm that an asynchronous run has not reached goes off. -/
def ringAfter (due : Nat) (x : Exchange) : Exchange :=
  match x.alarm with
  | some ⟨target, trigger, none⟩ =>
    { x with timer := max x.timer due }.ring ⟨target, trigger, none⟩
  | _ => x

/-- The feed that belongs to a call alone gets a reader. -/
def addOwnTap (s : Session) (entry : Option Call × Nat) : Session :=
  match entry.1 with
  | some call =>
    match call.plan.feed, call.feed with
    | .own, some feed => s.addTap (.call entry.2) feed
    | _, _ => s
  | none => s

/-- Every feed gets a reader. -/
def tapAll (capacities : List Nat) (x : Exchange) : Session :=
  x.calls.zipIdx.foldl addOwnTap
    ((List.range capacities.length).foldl (fun s i => s.addTap (.feed i) i) { exchange := x })

lemma openWith_eq (capacities : List Nat) (drafts : List Draft) (usual : Delivery.Settings)
    (draws : Nat → Nat → Nat) (quiet : Bool) : openWith capacities drafts usual draws quiet =
      let built := Exchange.addDrafts (.withFeeds capacities 1) usual draws drafts
      (built.1, if quiet then { exchange := built.2 } else tapAll capacities built.2) := by
  cases quiet with
  | true => rfl
  | false => rfl

/-- Only a question about a call is answered by what is known of it. -/
lemma execute_ne_info {command : Command} (hplain : command.isPlain = true) (s : Session)
    (known : CallInfo) : (s.execute command).1 ≠ .info known := by
  have honCall {c : CallId} {f : Call → Answer × Session} (hf : ∀ call, (f call).1 ≠ .info known) :
      (s.onCall c f).1 ≠ .info known := by
    unfold onCall
    split
    · exact nofun
    · exact hf _
  have hflagged (answer : Option Bool) : flagged answer ≠ .info known := by
    cases answer with
    | none => exact nofun
    | some value => exact nofun
  cases command with
  | runWatched | info | subscribe | unsubscribe => cases hplain
  | run c | isSignalled c =>
    unfold execute
    dsimp only
    split
    · exact nofun
    · exact nofun
  | runAsync | spawn | runUnstaffed | debug => exact honCall fun _ => nofun
  | close | dispose => exact hflagged _
  | drop c =>
    unfold execute
    dsimp only
    split
    · exact nofun
    · exact nofun

end Session

namespace Erasure

variable {e : Erasure} {x : Exchange} {c : CallId}

section Building

/-- The call of a plan can be built before something is forgotten or afterwards. -/
def Builds (e : Erasure) : Prop :=
  ∀ (x : Exchange) (plan : Plan) (listed : Bool),
    (e.exchange x).addPlan (e.plan plan) listed = e.exchange (x.addPlan plan listed)

lemma length_calls_exchange (x : Exchange) :
    (e.exchange x).calls.length = x.calls.length := List.length_map _

variable (hbuilds : e.Builds)
include hbuilds

theorem callOnce_exchange (he : e.IsLawful) (h : e.Fits x) (hx : x.Ready) (plan : Plan) :
    (e.exchange x).callOnce (e.plan plan) =
      ((x.callOnce plan).1, e.exchange (x.callOnce plan).2) := by
  have hadded : e.Fits (x.addPlan plan false) := h.of_alarm (alarm_addPlan x plan false)
  have hready : (x.addPlan plan false).Ready := hx.addPlan plan false
  unfold Exchange.callOnce
  rw [length_calls_exchange, hbuilds]
  dsimp only
  rw [run_exchange he hadded hready, drop_exchange he (AlarmIn.run he.retries hadded _)]

variable {usual usual' : Delivery.Settings} {erased : Draft → Draft}
  (herased : ∀ draft draws, (erased draft).plan usual' draws = (draft.plan usual draws).map e.plan)
include herased

lemma addDraft_exchange (x : Exchange) (draft : Draft) (draws : Nat → Nat) :
    (e.exchange x).addDraft (erased draft) usual' draws =
      ((x.addDraft draft usual draws).1, e.exchange (x.addDraft draft usual draws).2) := by
  unfold Exchange.addDraft
  rw [herased]
  cases draft.plan usual draws with
  | error error =>
    unfold exchange
    dsimp only [Except.map]
    rw [List.map_append]
    rfl
  | ok plan => exact congrArg (Prod.mk _) (hbuilds x plan true)

theorem addDrafts_exchange (x : Exchange) (drafts : List Draft) (draws : Nat → Nat → Nat) :
    (e.exchange x).addDrafts usual' draws (drafts.map erased) =
      ((x.addDrafts usual draws drafts).1, e.exchange (x.addDrafts usual draws drafts).2) := by
  unfold Exchange.addDrafts
  rw [List.foldl_map]
  let forget (built : List (Except DraftError Unit) × Exchange) := (built.1, e.exchange built.2)
  refine @List.foldl_hom _ _ _ forget _ _ drafts ([], x) fun built draft => ?_
  dsimp only [forget]
  rw [length_calls_exchange, addDraft_exchange hbuilds herased]

end Building

/-- The session without what is forgotten. -/
def session (e : Erasure) (s : Session) : Session where
  exchange := e.exchange s.exchange
  taps := e.taps s.taps

section Sessions

variable {s : Session}

lemma update_session {α : Type} {f : Exchange → α × Exchange}
    (h : f (e.exchange s.exchange) = ((f s.exchange).1, e.exchange (f s.exchange).2)) :
    (e.session s).update f = ((s.update f).1, e.session (s.update f).2) :=
  congrArg (fun made : α × Exchange => (made.1, (⟨made.2, e.taps s.taps⟩ : Session))) h

lemma onCall_session (answer : Answer → Answer) {f g : Call → Answer × Session}
    (habsent : answer .noCall = .noCall)
    (h : ∀ call, g (e.call call) = (answer (f call).1, e.session (f call).2)) :
    (e.session s).onCall c g = (answer (s.onCall c f).1, e.session (s.onCall c f).2) := by
  have hpresent : (e.session s).exchange.present? c = (s.exchange.present? c).map e.call :=
    present?_exchange s.exchange c
  unfold Session.onCall
  rw [hpresent]
  cases s.exchange.present? c with
  | none => exact congrArg (fun answer => (answer, e.session s)) habsent.symm
  | some call => exact h call

lemma states_session (s : Session) : (e.session s).states = s.states := by
  have hcalls : (e.session s).exchange.calls = s.exchange.calls.map (·.map e.call) := rfl
  unfold Session.states
  rw [hcalls, List.map_map]
  congr 1
  funext entry
  cases entry with
  | none => rfl
  | some call => rfl

end Sessions

section Lawful

variable (he : e.IsLawful)
include he

lemma debugText_call (call : Call) : (e.call call).debugText = call.debugText := by
  have hplan : (e.call call).plan = e.plan call.plan := rfl
  have hhandle : (e.call call).handle = call.handle := rfl
  have hbadge : (e.call call).badge.name = call.badge.name := by
    rw [call.badge_eq, (e.call call).badge_eq, hplan, he.plan call.plan]
  unfold Call.debugText
  rw [hplan, hhandle, hbadge, he.plan call.plan]

variable (h : e.Fits x)
include h

lemma ringAfter_exchange (due : Nat) :
    Session.ringAfter due (e.exchange x) = e.exchange (Session.ringAfter due x) := by
  have halarm : (e.exchange x).alarm = x.alarm := rfl
  unfold Session.ringAfter
  rw [halarm]
  split
  · have hlater : e.Fits { x with timer := max x.timer due } := h.of_alarm rfl
    exact ring_exchange he hlater _
  · rfl

variable (hx : x.Ready)
include hx

lemma runTimed_exchange (c : CallId) : Session.runTimed c (e.exchange x) =
    ((Session.runTimed c x).1, e.exchange (Session.runTimed c x).2) := by
  have hready : Exchange.Ready { x with timer := 0 } := hx.of_calls rfl
  have hfits : e.Fits { x with timer := 0 } := h.of_alarm rfl
  have hran := runAsync_exchange he hfits hready c
  exact congrArg (fun ran : RunReply × Exchange => ((ran.1, ran.2.timer), ran.2)) hran

lemma runUnstaffed_exchange (c : CallId) : Session.runUnstaffed c (e.exchange x) =
    ((Session.runUnstaffed c x).1, e.exchange (Session.runUnstaffed c x).2) := by
  have hready : Exchange.Ready { x with staffed := false } := hx.of_calls rfl
  have hfits : e.Fits { x with staffed := false } := h.of_alarm rfl
  have hran := runAsync_exchange he hfits hready c
  exact congrArg (fun ran : RunReply × Exchange => (ran.1, { ran.2 with staffed := true })) hran

lemma spawn_exchange (c : CallId) (disposeAfter : Option Nat) :
    Session.spawn c disposeAfter (e.exchange x) =
      ((Session.spawn c disposeAfter x).1, e.exchange (Session.spawn c disposeAfter x).2) := by
  cases disposeAfter with
  | none =>
    rw [Session.spawn, runTimed_exchange he h hx]
    rfl
  | some millis =>
    cases millis with
    | zero =>
      have hready : (x.dispose c).2.Ready := hx.perform .dispose c
      let spawned (y : Exchange) : (RunReply × Option Bool × Nat) × Exchange :=
        let ran := Session.runTimed c (y.dispose c).2
        ((ran.1.1, (y.dispose c).1, ran.1.2), ran.2)
      have hspawned (y : Exchange) : Session.spawn c (some 0) y = spawned y := rfl
      rw [hspawned, hspawned]
      dsimp only [spawned]
      rw [dispose_exchange he h, runTimed_exchange he (h.dispose he.retries c) hready]
    | succ millis =>
      let due := min (millis + 1) Exchange.longestWait
      let set (y : Exchange) : Exchange :=
        { y with alarm := some { target := c, trigger := .timer due } }
      let spawned (y : Exchange) : (RunReply × Option Bool × Nat) × Exchange :=
        let ran := Session.runTimed c (set y)
        let z := Session.ringAfter due ran.2
        ((ran.1.1, z.alarm.bind (·.answer), z.timer), { z with alarm := none })
      have hspawned (y : Exchange) : Session.spawn c (some (millis + 1)) y = spawned y := rfl
      have hset : set (e.exchange x) = e.exchange (set x) := rfl
      have hready : (set x).Ready := hx.of_calls rfl
      have hfits : e.Fits (set x) := by
        intro alarm halarm
        cases halarm
        exact he.timer due
      have hran : e.Fits (Session.runTimed c (set x)).2 := AlarmIn.runTimed he.retries hfits c
      rw [hspawned, hspawned]
      dsimp only [spawned]
      rw [hset, runTimed_exchange he hfits hready, ringAfter_exchange he hran]
      rfl

end Lawful

section Execute

variable {s : Session} (he : e.IsLawful) (h : e.Fits s.exchange)
include he h

/-- A plain command does the same, whether something is forgotten before or afterwards. -/
theorem execute_session (hs : s.exchange.Ready) {command : Command}
    (hplain : command.isPlain = true) :
    (e.session s).execute command =
      ((s.execute command).1, e.session (s.execute command).2) := by
  have honCall {c : CallId} {f g : Call → Answer × Session}
      (hf : ∀ call, g (e.call call) = ((f call).1, e.session (f call).2)) :
      (e.session s).onCall c g = ((s.onCall c f).1, e.session (s.onCall c f).2) :=
    onCall_session id rfl hf
  cases command with
  | runWatched | info | subscribe | unsubscribe => cases hplain
  | run c =>
    have hpresent : (e.session s).exchange.present? c = (s.exchange.present? c).map e.call :=
      present?_exchange s.exchange c
    have hran := update_session (run_exchange he h hs c)
    unfold Session.execute
    dsimp only
    rw [hpresent]
    cases s.exchange.present? c with
    | none => rfl
    | some call =>
      exact congrArg (fun ran : RunReply × Session =>
        (Answer.ran ran.1 (ran.2.exchange.clock - s.exchange.clock), ran.2)) hran
  | runAsync c =>
    refine honCall fun _ => ?_
    have hran := update_session (runTimed_exchange he h hs c)
    exact congrArg (fun ran : (RunReply × Nat) × Session =>
      (Answer.driven ran.1.1 ran.1.2, ran.2)) hran
  | spawn c disposeAfter =>
    refine honCall fun _ => ?_
    have hran := update_session (spawn_exchange he h hs c disposeAfter)
    exact congrArg (fun ran : (RunReply × Option Bool × Nat) × Session =>
      (Answer.spawned ran.1.1 ran.1.2.1 ran.1.2.2, ran.2)) hran
  | runUnstaffed c =>
    refine honCall fun _ => ?_
    have hran := update_session (runUnstaffed_exchange he h hs c)
    exact congrArg (fun ran : RunReply × Session => (Answer.unstaffed ran.1, ran.2)) hran
  | close c =>
    have hclosed := update_session (f := (·.close c)) (close_exchange he h c)
    unfold Session.execute
    dsimp only
    rw [hclosed]
  | dispose c =>
    have hdisposed := update_session (f := (·.dispose c)) (dispose_exchange he h c)
    unfold Session.execute
    dsimp only
    rw [hdisposed]
  | isSignalled c =>
    have hcall : (e.session s).exchange.call? c = (s.exchange.call? c).map e.call :=
      call?_exchange s.exchange c
    unfold Session.execute
    dsimp only
    rw [hcall]
    cases s.exchange.call? c with
    | none => rfl
    | some call => rfl
  | debug c =>
    refine honCall fun call => ?_
    rw [debugText_call he]
  | drop c =>
    have hdropped := update_session (f := (·.drop c)) (drop_exchange he h c)
    unfold Session.execute
    dsimp only
    rw [hdropped]
    generalize s.update (·.drop c) = dropped
    obtain ⟨answer, t⟩ := dropped
    cases answer with
    | none => rfl
    | some _ => rfl

end Execute

end Erasure

end Redial
