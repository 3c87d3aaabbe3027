import Mathlib.Tactic.Lemma
import Redial.Exchange.Build

/-!
# Steps of an exchange

The operations of an exchange change calls one at a time and keep all others. Pauses take time and
change nothing else unless another thread is about to dispose a handle.
-/

namespace Redial

lemma eq_ok_of_toOption {ε α : Type} {e : Except ε α} {a : α} (h : e.toOption = some a) :
    e = .ok a := by
  cases e with
  | error => cases h
  | ok => exact congrArg Except.ok (Option.some.inj h)

/-- Each delay of the plan can be added to the clock at `now`. -/
def Plan.FitsClock (plan : Plan) (now : Nat) : Prop :=
  ∀ retry < plan.limit.retries, ∀ delay, plan.backoff.delay retry (plan.draws retry) = .ok delay →
    now + delay.nanos < Course.clockLimit

/-- A call that is canceled at first and succeeds after the usual pause. -/
def Plan.patient : Plan :=
  { oneShot (fun n => .done (if n = 1 then .error .canceled else .ok ⟨true, "done"⟩)) 1 false none
      none none (.usual .latest) with
    backoff := .usual }

/-- The call with its handle disposed. -/
def Call.disposed (call : Call) : Call := { call with handle := call.handle.dispose.2 }

lemma Call.disposed_disposed (call : Call) : call.disposed.disposed = call.disposed := by
  unfold disposed
  rw [Handle.dispose_dispose]

lemma Handle.dispose_of_isDisposed {h : Handle} (hdisposed : h.isDisposed = true) :
    h.dispose = (false, h) := by
  obtain ⟨state, signalled⟩ := h
  obtain rfl : state = .disposed := of_decide_eq_true hdisposed
  rfl

namespace Delivery.Outbox

variable {α : Type} {box : Outbox α}

/-- An outbox has room for a first value, whatever its rule is. -/
lemma push_of_empty (hopen : box.isClosed = false) (hempty : box.queue = []) (value : α) :
    box.push value = .accepted (box.append value) := by
  have hroom : box.isFull = false := by
    simpa [isFull, size, hempty] using Nat.ne_of_gt box.capacity_pos
  simp [push, hopen, hroom]

lemma size_append_of_empty (hempty : box.queue = []) (value : α) : (box.append value).size = 1 := by
  unfold size append
  rw [hempty]
  rfl

end Delivery.Outbox

namespace Exchange

variable {x y : Exchange} {c d : CallId}

lemma call?_congr (h : y.calls = x.calls) (c : CallId) : y.call? c = x.call? c := by
  unfold call?
  rw [h]

/-- The feed that the call of a plan gets when it is added. -/
def feedFor (x : Exchange) (plan : Plan) : Option FeedId :=
  match plan.feed with
  | .none => none
  | .shared feed => some feed
  | .own => some x.feeds.length

lemma calls_addPlan (x : Exchange) (plan : Plan) (listed : Bool) :
    (x.addPlan plan listed).calls = x.calls ++ [some (plan.toCall (x.feedFor plan) listed)] := by
  unfold addPlan feedFor
  cases plan.feed <;> rfl

/-- A new call has its number, its plan, and the feed that the plan asks for. -/
lemma call?_addPlan (x : Exchange) (plan : Plan) (listed : Bool) :
    (x.addPlan plan listed).call? x.calls.length = some (plan.toCall (x.feedFor plan) listed) := by
  unfold call?
  rw [calls_addPlan]
  simp

/-- The calls that are there already stay as they are. -/
lemma call?_addPlan_of_known {call : Call} (hcall : x.call? c = some call) (plan : Plan)
    (listed : Bool) : (x.addPlan plan listed).call? c = some call := by
  have hknown : x.calls[c]? = some (some call) := Option.join_eq_some_iff.mp hcall
  have hlt : c < x.calls.length := (List.getElem?_eq_some_iff.mp hknown).1
  unfold call?
  rw [calls_addPlan, List.getElem?_append_left hlt, hknown]
  rfl

lemma call?_modify (x : Exchange) (d : CallId) (f : Call → Call) (c : CallId) :
    (x.modify d f).call? c = if d = c then (x.call? c).map f else x.call? c := by
  have hget : (x.modify d f).call? c = (x.calls.modify d (·.map f))[c]?.join := rfl
  rw [hget, List.getElem?_modify, call?]
  by_cases hdc : d = c
  · rw [if_pos hdc]
    cases x.calls[c]? with
    | none => rfl
    | some entry => simp [hdc]
  · rw [if_neg hdc]
    cases x.calls[c]? with
    | none => rfl
    | some entry => simp [hdc]

lemma call?_modify_self (x : Exchange) (c : CallId) (f : Call → Call) :
    (x.modify c f).call? c = (x.call? c).map f := by
  rw [call?_modify, if_pos rfl]

lemma call?_modify_of_known {call : Call} (hcall : x.call? c = some call) (f : Call → Call) :
    (x.modify c f).call? c = some (f call) := by
  rw [call?_modify_self, hcall, Option.map_some]

lemma call?_modify_of_ne (x : Exchange) (f : Call → Call) (h : d ≠ c) :
    (x.modify d f).call? c = x.call? c := by
  rw [call?_modify, if_neg h]

lemma call?_of_modify {f : Call → Call} {call : Call} (h : (x.modify d f).call? c = some call) :
    (d ≠ c ∧ x.call? c = some call) ∨ ∃ former, d = c ∧ x.call? c = some former ∧ f former = call := by
  rw [call?_modify] at h
  by_cases hdc : d = c
  · rw [if_pos hdc] at h
    obtain ⟨former, hformer, hcall⟩ := Option.map_eq_some_iff.mp h
    exact Or.inr ⟨former, hdc, hformer, hcall⟩
  · rw [if_neg hdc] at h
    exact Or.inl ⟨hdc, h⟩

lemma call?_of_modify_self {f : Call → Call} {call : Call}
    (h : (x.modify c f).call? c = some call) : ∃ former, x.call? c = some former ∧ f former = call := by
  rw [call?_modify_self] at h
  exact Option.map_eq_some_iff.mp h

lemma isSome_call?_modify (x : Exchange) (d : CallId) (f : Call → Call) (c : CallId) :
    ((x.modify d f).call? c).isSome = (x.call? c).isSome := by
  rw [call?_modify]
  split
  · exact Option.isSome_map
  · rfl

lemma modify_of_fixed {f : Call → Call} (h : ∀ call, x.call? c = some call → f call = call) :
    x.modify c f = x := by
  have hcalls : x.calls.modify c (·.map f) = x.calls := by
    apply List.ext_getElem?
    intro d
    rw [List.getElem?_modify]
    by_cases hcd : c = d
    · subst hcd
      unfold call? at h
      cases hc : x.calls[c]? with
      | none => rfl
      | some entry =>
        cases entry with
        | none => simp
        | some call =>
          rw [hc] at h
          simpa using h call rfl
    · cases x.calls[d]? with
      | none => rfl
      | some entry => simp [hcd]
  unfold modify
  rw [hcalls]

@[simp] lemma calls_countRetry (x : Exchange) (feed : FeedId) :
    (x.countRetry feed).calls = x.calls := by
  unfold countRetry
  split
  · split <;> rfl
  · rfl

@[simp] lemma calls_tell (x : Exchange) (d : CallId) (notice : Notice) :
    (x.tell d notice).calls = x.calls := by
  unfold tell publish
  split
  · rfl
  · dsimp only
    split
    · rfl
    · split
      · rw [calls_countRetry]
        rfl
      · rfl

@[simp] lemma call?_tell (x : Exchange) (d : CallId) (notice : Notice) (c : CallId) :
    (x.tell d notice).call? c = x.call? c :=
  call?_congr (calls_tell x d notice) c

lemma call?_dispose (x : Exchange) (d c : CallId) :
    (x.dispose d).2.call? c =
      if d = c then (x.call? c).map Call.disposed else x.call? c := by
  rw [dispose_eq_tell]
  cases hd : x.call? d with
  | none =>
    dsimp only
    split
    case isTrue hdc =>
      rw [← hdc, hd]
      rfl
    case isFalse => rfl
  | some call =>
    have hcall : (x.modify d ({ · with handle := call.handle.dispose.2 })).call? c =
        if d = c then (x.call? c).map Call.disposed else x.call? c := by
      rw [call?_modify]
      by_cases hdc : d = c
      · rw [if_pos hdc, if_pos hdc, ← hdc, hd]
        rfl
      · rw [if_neg hdc, if_neg hdc]
    dsimp only
    split
    · rw [call?_tell, hcall]
    · exact hcall

/-- Publishing an event is noted together with the feed of the call, if it has one. -/
lemma journal_tell {call : Call} (hcall : x.call? c = some call) (notice : Notice) :
    ∃ place : Option (FeedId × Nat), place.map Prod.fst = call.feed ∧ (x.tell c notice).journal =
      .told c { notice with call := some call.plan.name } place :: x.journal := by
  have hcount (y : Exchange) (feed : FeedId) : (y.countRetry feed).journal = y.journal := by
    unfold countRetry
    split
    · split <;> rfl
    · rfl
  unfold tell publish
  rw [hcall]
  dsimp only
  cases hfeed : call.feed with
  | none => exact ⟨none, rfl, rfl⟩
  | some feed =>
    refine ⟨some (feed, x.nextSeq), rfl, ?_⟩
    dsimp only
    split
    · exact hcount _ _
    · rfl

lemma dispose_of_isDisposed {call : Call} (hcall : x.call? c = some call)
    (hdisposed : call.handle.isDisposed = true) : x.dispose c = (some false, x) := by
  rw [dispose_eq_tell, hcall]
  dsimp only
  rw [Handle.dispose_of_isDisposed hdisposed]
  refine congrArg (Prod.mk (some false)) (modify_of_fixed fun former hformer => ?_)
  rw [hcall] at hformer
  cases hformer
  rfl

lemma dispose_of_live {call : Call} (hcall : x.call? c = some call)
    (hlive : call.handle.isDisposed = false) : x.dispose c =
      (some true, (x.modify c ({ · with handle := call.handle.dispose.2 })).tell c
        { kind := .handleDisposed }) := by
  have hfirst : call.handle.dispose.1 = true := by
    rw [Handle.dispose_fst_eq, hlive]
    rfl
  rw [dispose_eq_tell, hcall]
  dsimp only
  rw [hfirst]
  rfl

lemma dispose_of_unknown (hcall : x.call? c = none) : x.dispose c = (none, x) := by
  rw [dispose_eq_tell, hcall]

lemma countRetry_of_alarm (halarm : x.alarm = none) (feed : FeedId) : x.countRetry feed = x := by
  unfold countRetry
  rw [halarm]

lemma clock_tell (x : Exchange) (c : CallId) (notice : Notice) :
    (x.tell c notice).clock = x.clock := by
  have hcount (y : Exchange) (feed : FeedId) : (y.countRetry feed).clock = y.clock := by
    unfold countRetry
    split
    · split <;> rfl
    · rfl
  unfold tell publish
  split
  · rfl
  · dsimp only
    split
    · rfl
    · split
      · rw [hcount]
        rfl
      · rfl

lemma clock_dispose (x : Exchange) (c : CallId) : (x.dispose c).2.clock = x.clock := by
  rw [dispose_eq_tell]
  split
  · rfl
  · dsimp only
    split
    · exact clock_tell _ _ _
    · rfl

/-- The clock goes on by what is slept. -/
lemma clock_elapse (x : Exchange) (nanos : Nat) : (x.elapse nanos).clock = x.clock + nanos := by
  unfold elapse
  dsimp only
  split
  · split
    · exact clock_dispose _ _
    · rfl
  · rfl

lemma elapse_of_alarm (halarm : x.alarm = none) (nanos : Nat) :
    x.elapse nanos = { x with clock := x.clock + nanos } := by
  unfold elapse
  rw [halarm]

lemma wait_of_alarm (halarm : x.alarm = none) (c : CallId) (delay : Duration) :
    ∃ timer, x.wait c delay = { x with timer } := by
  unfold wait
  split
  · exact ⟨x.timer, rfl⟩
  · refine ⟨x.timer + timerMillis delay, ?_⟩
    rw [halarm]

lemma exists_of_runnable {plan : Plan} (h : x.runnable c = .ok plan) :
    ∃ call, x.call? c = some call ∧ call.presence = .here ∧ call.plan = plan := by
  unfold runnable at h
  split at h
  case h_1 => cases h
  case h_2 call hcall =>
    split at h
    case h_3 hhere =>
      cases h
      exact ⟨call, hcall, hhere, rfl⟩
    all_goals cases h

lemma runnable_ne_ended {reply : RunReply} (h : x.runnable c = .error reply) (how : Except Halt Unit) :
    reply ≠ .ended how := by
  unfold runnable at h
  split at h
  · cases h
    nofun
  · split at h
    · cases h
      nofun
    · cases h
      nofun
    · cases h

lemma present?_of_runnable {reply : RunReply} (h : x.runnable c = .error reply) :
    x.present? c = none := by
  unfold runnable at h
  unfold present?
  split at h
  case h_1 hcall => rw [hcall]
  case h_2 call hcall =>
    rw [hcall]
    split at h
    case h_1 hgone => simp [hgone]
    case h_2 hbusy => simp [hbusy]
    case h_3 => cases h

lemma run_of_error {reply : RunReply} (h : x.runnable c = .error reply) : x.run c = (reply, x) := by
  unfold run runWithin
  rw [h]

lemma runAsync_of_error {reply : RunReply} (h : x.runnable c = .error reply) :
    x.runAsync c = (reply, x) := by
  unfold runAsync
  rw [h]

/-- A deed does nothing, or it disposes a handle, or it drops a call that is there. -/
lemma perform_cases (x : Exchange) (deed : Deed) (c : CallId) :
    (x.perform deed c).2 = x ∨ (x.perform deed c).2 = (x.dispose c).2 ∨
      ∃ call, x.call? c = some call ∧ call.presence = .here ∧
        (x.perform deed c).2 = (x.setPresence c .gone).release c := by
  cases deed with
  | dispose => exact Or.inr (Or.inl rfl)
  | close =>
    unfold perform close
    dsimp only
    split
    · exact Or.inl rfl
    · exact Or.inr (Or.inl rfl)
  | drop =>
    unfold perform drop present?
    dsimp only
    cases hcall : x.call? c with
    | none => exact Or.inl rfl
    | some call =>
      by_cases hhere : call.presence = .here
      · refine Or.inr (Or.inr ⟨call, rfl, hhere, ?_⟩)
        simp only [hhere, if_true]
        rfl
      · exact Or.inl (by simp only [hhere, if_false])

/-- A run of a call that is there is one of its blocking course. -/
lemma run_of_ok {plan : Plan} (h : x.runnable c = .ok plan) : ∃ depth,
    let followed := follow (runWithin depth) c (.blocking plan) (x.setPresence c .busy)
    x.run c = (.ended followed.1, followed.2.setPresence c .here) := by
  obtain ⟨call, hcall, -⟩ := exists_of_runnable h
  have hlt : c < x.calls.length := by
    unfold call? at hcall
    cases hc : x.calls[c]? with
    | none => simp [hc] at hcall
    | some entry => exact (List.getElem?_eq_some_iff.mp hc).1
  obtain ⟨depth, hdepth⟩ := Nat.exists_eq_succ_of_ne_zero (Nat.ne_of_gt (Nat.zero_lt_of_lt hlt))
  refine ⟨depth, ?_⟩
  unfold run runWithin
  rw [h, hdepth]

/-- An empty outbox takes a verdict unless it is closed. -/
lemma pushVerdict_of_empty {call : Call} (hcall : x.call? c = some call)
    (hempty : call.outbox.size = 0) (verdict : Verdict) :
    x.pushVerdict c verdict = (.ok (.error .closed), x) ∨
      ∃ outbox : Delivery.Outbox Verdict, outbox.size = 1 ∧
        x.pushVerdict c verdict = (.ok (.ok 1), x.modify c ({ · with outbox })) := by
  have hnone : call.outbox.queue = [] := List.eq_nil_of_length_eq_zero hempty
  unfold pushVerdict
  rw [hcall]
  dsimp only
  cases hclosed : call.outbox.isClosed with
  | true =>
    rw [Delivery.Outbox.push_of_closed hclosed]
    exact Or.inl rfl
  | false =>
    have hone : (call.outbox.append verdict).size = 1 := by
      simp [Delivery.Outbox.size, Delivery.Outbox.append, hnone]
    rw [Delivery.Outbox.push_of_empty hclosed hnone]
    exact Or.inr ⟨_, hone, by rw [← hone]⟩

/-- A verdict leaves the outbox unless there is none. -/
lemma popVerdict_cases {call : Call} (hcall : x.call? c = some call) :
    (call.outbox.size = 0 ∧ x.popVerdict c = (none, x)) ∨
      ∃ (verdict : Verdict) (outbox : Delivery.Outbox Verdict),
        call.outbox.size = outbox.size + 1 ∧
        x.popVerdict c = (some verdict, x.modify c ({ · with outbox })) := by
  unfold popVerdict Delivery.Outbox.pop Delivery.Outbox.size
  rw [hcall, Option.bind_some]
  cases hqueue : call.outbox.queue with
  | nil => exact Or.inl ⟨rfl, rfl⟩
  | cons verdict rest => exact Or.inr ⟨verdict, _, rfl, rfl⟩

/-- The handle of a call is disposed. -/
def isDisposed (x : Exchange) (c : CallId) : Bool := (x.call? c).any (·.handle.isDisposed)

lemma follow_askDisposed (nesting : Nesting) (c : CallId) (next : Bool → Course) (x : Exchange) :
    follow nesting c (.askDisposed next) x = follow nesting c (next (x.isDisposed c)) x := rfl

section Pauses

open Course

variable {nesting : Nesting} {I : Exchange → Prop} {next : Course}

lemma follow_pauseUntil (helapse : ∀ x nanos, I x → I (x.elapse nanos)) (hx : I x)
    (deadline looks : Nat) : ∃ y, I y ∧
      follow nesting c (pauseUntil deadline next looks) x = follow nesting c next y := by
  induction looks generalizing x with
  | zero => exact ⟨x, hx, rfl⟩
  | succ looks ih =>
    rw [pauseUntil, follow]
    split
    · exact ⟨x, hx, rfl⟩
    · rw [follow]
      split
      · exact ⟨x, hx, rfl⟩
      · rw [follow]
        exact ih (helapse x _ hx)

/-- A pause comes to its end, unless the end cannot be named. -/
lemma follow_pause (helapse : ∀ x nanos, I x → I (x.elapse nanos)) (hx : I x) (delay : Duration)
    (hroom : (follow nesting c (pause delay next) x).2.clock + delay.nanos < clockLimit) :
    ∃ y, I y ∧ follow nesting c (pause delay next) x = follow nesting c next y := by
  rw [pause, follow] at hroom ⊢
  by_cases hnow : x.clock + delay.nanos < clockLimit
  · rw [if_pos hnow]
    exact follow_pauseUntil helapse hx _ _
  · rw [if_neg hnow] at hroom
    exact absurd hroom hnow

end Pauses

/-- The patient call on an exchange of its own. -/
def patient : Exchange := ({} : Exchange).addPlan .patient true

lemma delay_patient : Plan.patient.backoff.delay 0 (Plan.patient.draws 0) = .ok (.ofMillis 100) :=
  eq_ok_of_toOption (by decide +kernel)

lemma fitsClock_patient : Plan.patient.FitsClock (patient.run 0).2.clock := by
  intro retry hretry delay hdelay
  obtain rfl : retry = 0 := Nat.lt_one_iff.mp hretry
  rw [delay_patient] at hdelay
  cases hdelay
  decide +kernel

end Exchange

end Redial
