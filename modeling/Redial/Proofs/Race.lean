import Mathlib.Tactic.Lemma
import Redial.Exchange.Build
import Redial.Handle.Shared

/-!
# Runs among other threads

A run in atomic steps, with the steps of other threads that dispose its handle in between. User
code takes two steps, one into it and one out of it, so a disposal can also come while it is at
work, from another thread or from that code itself.

What a run does next is read off its course. Which answer it gets is up to its surroundings: the
handle as the other threads have left it, the outbox, and the callbacks that have not been used.
User code and the clock answer whatever they like.
-/

namespace Redial

/-- The two ways to run a call. -/
inductive Manner where
  | blocking
  | asynchronous
  deriving DecidableEq

/-- A call with a single attempt, which is canceled. -/
def Plan.canceled : Plan :=
  .oneShot (fun _ => .done (.error .canceled)) 0 false none none none (.usual .latest)

/-- The course of a call that is run in a given manner. -/
def Plan.course (plan : Plan) : Manner → Course
  | .blocking => .blocking plan
  | .asynchronous => .async plan

/-- One step of a race: of the run, with the answer it got, or of another thread. -/
inductive Stride where
  | started (won : Bool)
  | looked (disposed : Bool)
  | told (notice : Notice)
  | bodyBegan
  | bodyEnded (output : Output)
  /-- Nobody would invoke the body. -/
  | bodyRefused
  | predicateBegan (fault : Fault)
  | predicateEnded (again : Bool)
  | clockRead (now : Nat)
  | slept (nanos : Nat)
  | waited (delay : Duration)
  | pushed (verdict : Verdict) (answer : Except Delivery.Refusal Nat)
  | popped (verdict : Option Verdict)
  | callbackBegan (verdict : Verdict)
  /-- There is no callback for the verdict, or it has been used. -/
  | callbackMissing (verdict : Verdict)
  | callbackEnded
  /-- Another thread makes its next step on the handle. -/
  | other (thread : Nat)

/-- Where a run stands: before a step of its course, or inside user code. -/
inductive Standing where
  | before (course : Course)
  | inBody (next : Output → Course)
  | inPredicate (next : Bool → Course)
  | inCallback (next : Course)

namespace Standing

/-- Where a run stands after a step of its own, if it can make this step. -/
def after? : Standing → Stride → Option Standing
  | before (.start next), .started won => some (before (next won))
  | before (.askDisposed next), .looked disposed => some (before (next disposed))
  | before (.report notice next), .told told => if notice = told then some (before next) else none
  | before (.invoke next), .bodyBegan => some (inBody next)
  | before (.dispatch next), .bodyBegan => some (inBody fun output => next (some output))
  | before (.dispatch next), .bodyRefused => some (before (next none))
  | inBody next, .bodyEnded output => some (before (next output))
  | before (.consult fault next), .predicateBegan asked =>
    if fault = asked then some (inPredicate next) else none
  | inPredicate next, .predicateEnded again => some (before (next again))
  | before (.readClock next), .clockRead now => some (before (next now))
  | before (.sleep nanos next), .slept slept => if nanos = slept then some (before next) else none
  | before (.await delay next), .waited waited =>
    if delay = waited then some (before next) else none
  | before (.push verdict next), .pushed pushed answer =>
    if verdict = pushed then some (before (next answer)) else none
  | before (.pop next), .popped verdict => some (before (next verdict))
  | before (.callback verdict next), .callbackBegan called =>
    if verdict = called then some (inCallback next) else none
  | before (.callback verdict next), .callbackMissing called =>
    if verdict = called then some (before next) else none
  | inCallback next, .callbackEnded => some (before next)
  | _, _ => none

/-- The steps of a run on its own, whatever the answers: one rule for each kind of step. -/
inductive Leads : Standing → Stride → Standing → Prop where
  | start {next} (won) : Leads (before (.start next)) (.started won) (before (next won))
  | look {next} (disposed) :
      Leads (before (.askDisposed next)) (.looked disposed) (before (next disposed))
  | tell {next} (notice) : Leads (before (.report notice next)) (.told notice) (before next)
  | enterBody {next} : Leads (before (.invoke next)) .bodyBegan (inBody next)
  | sendBody {next} :
      Leads (before (.dispatch next)) .bodyBegan (inBody fun output => next (some output))
  | refuseBody {next} : Leads (before (.dispatch next)) .bodyRefused (before (next none))
  | leaveBody {next} (output) : Leads (inBody next) (.bodyEnded output) (before (next output))
  | enterPredicate {next} (fault) :
      Leads (before (.consult fault next)) (.predicateBegan fault) (inPredicate next)
  | leavePredicate {next} (again) :
      Leads (inPredicate next) (.predicateEnded again) (before (next again))
  | readClock {next} (now) : Leads (before (.readClock next)) (.clockRead now) (before (next now))
  | sleep {next} (nanos) : Leads (before (.sleep nanos next)) (.slept nanos) (before next)
  | wait {next} (delay) : Leads (before (.await delay next)) (.waited delay) (before next)
  | push {next} (verdict answer) :
      Leads (before (.push verdict next)) (.pushed verdict answer) (before (next answer))
  | pop {next} (verdict) : Leads (before (.pop next)) (.popped verdict) (before (next verdict))
  | enterCallback {next} (verdict) :
      Leads (before (.callback verdict next)) (.callbackBegan verdict) (inCallback next)
  | missCallback {next} (verdict) :
      Leads (before (.callback verdict next)) (.callbackMissing verdict) (before next)
  | leaveCallback {next} : Leads (inCallback next) .callbackEnded (before next)

theorem leads_of_after? {s t : Standing} {stride : Stride} (h : s.after? stride = some t) :
    s.Leads stride t := by
  revert h
  fun_cases after? s stride <;> intro h <;> cases h <;> constructor

lemma Leads.of_start {next : Bool → Course} {stride : Stride} {t : Standing}
    (h : (before (.start next)).Leads stride t) :
    ∃ won, stride = .started won ∧ t = before (next won) := by
  cases h with
  | start won => exact ⟨won, rfl, rfl⟩

lemma Leads.of_look {next : Bool → Course} {stride : Stride} {t : Standing}
    (h : (before (.askDisposed next)).Leads stride t) :
    ∃ disposed, stride = .looked disposed ∧ t = before (next disposed) := by
  cases h with
  | look disposed => exact ⟨disposed, rfl, rfl⟩

lemma Leads.of_report {notice : Notice} {next : Course} {stride : Stride} {t : Standing}
    (h : (before (.report notice next)).Leads stride t) : stride = .told notice := by
  cases h with
  | tell => rfl

/-- Inside the body or the predicate: the attempt at hand is not judged yet. -/
def inAttempt : Standing → Bool
  | inBody _ | inPredicate _ => true
  | _ => false

end Standing

/-- What a run finds around it. -/
structure Surroundings where
  shared : SharedHandle
  outbox : Delivery.Outbox Verdict
  /-- There is a callback for results that has not been used. -/
  onSuccess : Bool
  /-- There is a callback for faults that has not been used. -/
  onFailure : Bool

namespace Surroundings

def isDisposed (e : Surroundings) : Bool := e.shared.handle.isDisposed

/-- There is a callback for the verdict that has not been used. -/
def hasCallback (e : Surroundings) : Verdict → Bool
  | .success _ => e.onSuccess
  | .failure _ => e.onFailure

/-- The callback for the verdict is used up. -/
def useCallback (e : Surroundings) : Verdict → Surroundings
  | .success _ => { e with onSuccess := false }
  | .failure _ => { e with onFailure := false }

/-- The surroundings after a step of the run, if they give the answer that the step carries. -/
def meet (e : Surroundings) : Stride → Option Surroundings
  | .started won =>
    let (first, handle) := e.shared.handle.start
    if first = won then some { e with shared := { e.shared with handle } } else none
  | .looked disposed => if e.isDisposed = disposed then some e else none
  | .pushed verdict answer =>
    match e.outbox.push verdict, answer with
    | .accepted outbox, .ok held => if outbox.size = held then some { e with outbox } else none
    | .refused reason, .error given => if reason = given then some e else none
    | _, _ => none
  | .popped verdict =>
    match e.outbox.pop with
    | none => if verdict = none then some e else none
    | some (oldest, outbox) => if verdict = some oldest then some { e with outbox } else none
  | .callbackBegan verdict => if e.hasCallback verdict then some (e.useCallback verdict) else none
  | .callbackMissing verdict => if e.hasCallback verdict then none else some e
  | _ => some e

variable {e f : Surroundings} {stride : Stride}

@[simp] lemma shared_useCallback (e : Surroundings) (verdict : Verdict) :
    (e.useCallback verdict).shared = e.shared := by
  cases verdict <;> rfl

@[simp] lemma outbox_useCallback (e : Surroundings) (verdict : Verdict) :
    (e.useCallback verdict).outbox = e.outbox := by
  cases verdict <;> rfl

lemma start_of_meet {won : Bool} (h : e.meet (.started won) = some f) :
    e.shared.handle.start.1 = won ∧
      f = { e with shared := { e.shared with handle := e.shared.handle.start.2 } } := by
  simp only [meet, Option.ite_none_right_eq_some, Option.some.injEq] at h
  exact ⟨h.1, h.2.symm⟩

lemma look_of_meet {disposed : Bool} (h : e.meet (.looked disposed) = some f) :
    e.isDisposed = disposed ∧ f = e := by
  simp only [meet, Option.ite_none_right_eq_some, Option.some.injEq] at h
  exact ⟨h.1, h.2.symm⟩

/-- A run does nothing to its handle but start it. -/
lemma shared_of_meet (h : e.meet stride = some f) (hstart : ∀ won, stride ≠ .started won) :
    f.shared = e.shared := by
  revert h
  fun_cases meet e stride <;> intro h <;> cases h
  case case1 => exact absurd rfl (hstart _)
  case case14 => exact shared_useCallback _ _
  all_goals rfl

/-- Only pushing and popping change the outbox. -/
lemma outbox_of_meet (h : e.meet stride = some f)
    (hpush : ∀ verdict answer, stride ≠ .pushed verdict answer)
    (hpop : ∀ verdict, stride ≠ .popped verdict) : f.outbox = e.outbox := by
  revert h
  fun_cases meet e stride <;> intro h <;> cases h
  case case5 => exact absurd rfl (hpush _ _)
  case case12 => exact absurd rfl (hpop _)
  case case14 => exact outbox_useCallback _ _
  all_goals rfl

lemma push_of_meet {verdict : Verdict} {answer : Except Delivery.Refusal Nat}
    (h : e.meet (.pushed verdict answer) = some f) :
    (∃ outbox, e.outbox.push verdict = .accepted outbox ∧ answer = .ok outbox.size ∧
      f = { e with outbox }) ∨
    ∃ reason, e.outbox.push verdict = .refused reason ∧ answer = .error reason ∧ f = e := by
  dsimp only [meet] at h
  split at h
  case h_1 outbox held hpush =>
    obtain ⟨rfl, hf⟩ := Option.ite_none_right_eq_some.mp h
    cases hf
    exact Or.inl ⟨outbox, hpush, rfl, rfl⟩
  case h_2 reason given hpush =>
    obtain ⟨rfl, hf⟩ := Option.ite_none_right_eq_some.mp h
    cases hf
    exact Or.inr ⟨reason, hpush, rfl, rfl⟩
  case h_3 => cases h

lemma pop_of_meet {verdict : Option Verdict} (h : e.meet (.popped verdict) = some f) :
    (e.outbox.pop = none ∧ verdict = none ∧ f = e) ∨
    ∃ oldest outbox, e.outbox.pop = some (oldest, outbox) ∧ verdict = some oldest ∧
      f = { e with outbox } := by
  dsimp only [meet] at h
  split at h
  case h_1 hpop =>
    obtain ⟨rfl, hf⟩ := Option.ite_none_right_eq_some.mp h
    cases hf
    exact Or.inl ⟨hpop, rfl, rfl⟩
  case h_2 oldest outbox hpop =>
    obtain ⟨rfl, hf⟩ := Option.ite_none_right_eq_some.mp h
    cases hf
    exact Or.inr ⟨oldest, outbox, hpop, rfl, rfl⟩

lemma meet_accepted {verdict : Verdict} {outbox : Delivery.Outbox Verdict}
    (h : e.outbox.push verdict = .accepted outbox) :
    e.meet (.pushed verdict (.ok outbox.size)) = some { e with outbox } := by
  simp [meet, h]

lemma meet_refused {verdict : Verdict} {reason : Delivery.Refusal}
    (h : e.outbox.push verdict = .refused reason) :
    e.meet (.pushed verdict (.error reason)) = some e := by
  simp [meet, h]

lemma meet_empty (h : e.outbox.pop = none) : e.meet (.popped none) = some e := by
  simp [meet, h]

lemma meet_popped {oldest : Verdict} {outbox : Delivery.Outbox Verdict}
    (h : e.outbox.pop = some (oldest, outbox)) :
    e.meet (.popped (some oldest)) = some { e with outbox } := by
  simp [meet, h]

end Surroundings

/-- A run and what is around it. -/
structure Race where
  around : Surroundings
  standing : Standing

namespace Race

/-- The run of a plan before its first step. Nobody has used its outbox or its callbacks. -/
def begin (plan : Plan) (manner : Manner) (shared : SharedHandle) : Race where
  around := {
    shared
    outbox := .create plan.delivery.outboxRoom plan.delivery.overflow
    onSuccess := plan.onSuccess.isSome
    onFailure := plan.onFailure.isSome }
  standing := .before (plan.course manner)

/-- The race after a step, if the step is possible. -/
def step (r : Race) : Stride → Option Race
  | .other thread => do
    let shared ← r.around.shared.step thread
    return { r with around := { r.around with shared } }
  | stride => do
    let standing ← r.standing.after? stride
    let around ← r.around.meet stride
    return { around, standing }

/-- The race after some steps, if they are possible one after the other. -/
def follow (r : Race) : List Stride → Option Race
  | [] => some r
  | stride :: rest => do (← r.step stride).follow rest

def isDisposed (r : Race) : Bool := r.around.isDisposed

/-- The run is over, and no panic ended it. -/
def IsOver (r : Race) : Prop := r.standing = .before .finished

instance (r : Race) : Decidable r.IsOver :=
  match h : r.standing with
  | .before .finished => isTrue h
  | .before (.panics _) | .before (.start _) | .before (.askDisposed _) | .before (.report ..)
  | .before (.invoke _) | .before (.dispatch _) | .before (.consult ..) | .before (.readClock _)
  | .before (.sleep ..) | .before (.await ..) | .before (.push ..) | .before (.pop _)
  | .before (.callback ..) | .inBody _ | .inPredicate _ | .inCallback _ =>
    isFalse fun hover => nomatch h.symm.trans hover

variable {r s t : Race} {stride : Stride} {first rest : List Stride}

/-- A step belongs to another thread and leaves the run where it stands, or it is the next step of
the run and the surroundings agree to it. -/
theorem step_cases (h : r.step stride = some s) :
    (∃ thread shared, stride = .other thread ∧ r.around.shared.step thread = some shared ∧
      s = { r with around := { r.around with shared } }) ∨
    (r.standing.Leads stride s.standing ∧ r.around.meet stride = some s.around) := by
  unfold step at h
  split at h
  case h_1 thread =>
    obtain ⟨shared, hshared, hs⟩ := Option.bind_eq_some_iff.mp h
    cases hs
    exact Or.inl ⟨thread, shared, rfl, hshared, rfl⟩
  case h_2 =>
    obtain ⟨standing, hstanding, hrest⟩ := Option.bind_eq_some_iff.mp h
    obtain ⟨around, haround, hs⟩ := Option.bind_eq_some_iff.mp hrest
    cases hs
    exact Or.inr ⟨Standing.leads_of_after? hstanding, haround⟩

lemma follow_cons : r.follow (stride :: rest) = (r.step stride).bind (·.follow rest) := rfl

lemma follow_cons_eq_some (h : r.follow (stride :: rest) = some t) :
    ∃ s, r.step stride = some s ∧ s.follow rest = some t :=
  Option.bind_eq_some_iff.mp h

lemma follow_append (r : Race) (first rest : List Stride) :
    r.follow (first ++ rest) = (r.follow first).bind (·.follow rest) := by
  induction first generalizing r with
  | nil => rfl
  | cons stride first ih =>
    rw [List.cons_append, follow_cons, follow_cons, Option.bind_assoc]
    congr 1
    funext s
    exact ih s

/-- A run that is over takes no further step. -/
lemma follow_of_isOver (h : r.follow rest = some t) (hr : r.IsOver) :
    ∀ stride ∈ rest, ∃ thread, stride = .other thread := by
  induction rest generalizing r with
  | nil => simp
  | cons stride rest ih =>
    obtain ⟨s, hstep, hrest⟩ := follow_cons_eq_some h
    rcases step_cases hstep with ⟨thread, shared, rfl, hshared, rfl⟩ | ⟨hlead, hmeet⟩
    · simpa using ih hrest hr
    · rw [IsOver] at hr
      rw [hr] at hlead
      cases hlead

end Race

end Redial
