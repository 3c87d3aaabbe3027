import Redial.Proofs.CallLives
import Redial.Proofs.RunsAsRaces
import Redial.Proofs.SharedHandles

/-!
# Races one after the other

A run goes as far as it goes: it comes to its end, or a panic of user code breaks it off wherever it
stands. Then the call can be run again, and the next run finds what the last one has left. So the
life of a call among other threads is a sequence of races. Whoever disposes the handle in the
meantime, a call is run once at most, and what it does then is within the allowance of its plan.
-/

namespace Redial

namespace Delivery.Outbox

variable {α : Type} {box after : Outbox α} {value : α}

lemma size_of_push_of_empty (hempty : box.size = 0) (h : box.push value = .accepted after) :
    after.size = 1 := by
  have hnone : box.queue = [] := List.eq_nil_of_length_eq_zero hempty
  cases hclosed : box.isClosed with
  | true =>
    rw [push_of_closed hclosed] at h
    cases h
  | false =>
    rw [push_of_empty hclosed hnone] at h
    cases h
    exact size_append_of_empty hnone value

lemma size_of_pop (h : box.pop = some (value, after)) : box.size = after.size + 1 := by
  unfold pop at h
  split at h
  case h_1 => cases h
  case h_2 hqueue =>
    cases h
    rw [size, hqueue]
    rfl

lemma size_of_pop_none (h : box.pop = none) : box.size = 0 := by
  unfold pop at h
  split at h
  case h_1 hqueue => exact congrArg List.length hqueue
  case h_2 => cases h

end Delivery.Outbox

lemma HandleState.Advances.rank_le {before after : HandleState} (h : before.Advances after) :
    before.rank ≤ after.rank := by
  cases h <;> decide

lemma Handle.state_start_ne_idle (h : Handle) : h.start.2.state ≠ .idle := by
  obtain ⟨state, signalled⟩ := h
  cases state <;> simp [start]

namespace Standing

/-- `Course.Spends` of what is left of a run. -/
def Spends : Standing → Nat → Allowance → Prop
  | before course, n, a => course.Spends n a
  | inBody next, n, a => ∀ output, (next output).Spends n a
  | inPredicate next, n, a => ∀ again, (next again).Spends n a
  | inCallback next, n, a => next.Spends n a

variable {s t : Standing} {stride : Stride} {e f : Surroundings} {a : Allowance}

/-- A step of a run with what it costs, if it leaves the outbox alone. -/
lemma Leads.spends_of_same {n : Nat} (h : s.Leads stride t)
    (hpush : ∀ verdict answer, stride ≠ .pushed verdict answer)
    (hpop : ∀ verdict, stride ≠ .popped verdict) (hs : s.Spends n a) :
    ∃ b, a.Pays stride.act?.toList b ∧ t.Spends n b := by
  cases h with
  | start answer | look answer | readClock answer | leaveBody answer | leavePredicate answer =>
    exact ⟨a, a.pays_nil, hs answer⟩
  | sleep | wait | enterPredicate | leaveCallback => exact ⟨a, a.pays_nil, hs⟩
  | tell notice =>
    obtain ⟨b, hpays, hnext⟩ := hs
    refine ⟨b, ?_, hnext⟩
    by_cases hkind : notice.kind = .handleDisposed
    · rw [Stride.act?, if_pos hkind]
      exact hpays.nil
    · rw [Stride.act?, if_neg hkind]
      exact hpays
  | enterBody => exact hs
  | sendBody =>
    obtain ⟨-, b, hpays, hnext⟩ := hs
    exact ⟨b, hpays, hnext⟩
  | refuseBody => exact ⟨a, a.pays_nil, hs.1⟩
  | enterCallback => exact hs
  | missCallback =>
    obtain ⟨b, hpays, hnext⟩ := hs
    exact ⟨b, hpays.nil, hnext⟩
  | push => exact absurd rfl (hpush _ _)
  | pop => exact absurd rfl (hpop _)

/-- A step of a run with what it costs, in surroundings that agree to it. -/
theorem Leads.spends (h : s.Leads stride t) (hmeet : e.meet stride = some f)
    (hs : s.Spends e.outbox.size a) :
    ∃ b, a.Pays stride.act?.toList b ∧ t.Spends f.outbox.size b := by
  by_cases hpush : ∃ verdict answer, stride = .pushed verdict answer
  · obtain ⟨verdict, answer, rfl⟩ := hpush
    cases h with
    | push =>
      obtain ⟨hempty, haccepted, hrefused⟩ := hs
      refine ⟨a, a.pays_nil, ?_⟩
      rcases Surroundings.push_of_meet hmeet with ⟨outbox, hpush, rfl, rfl⟩ | ⟨reason, -, rfl, rfl⟩
      · change Spends _ outbox.size a
        rw [Delivery.Outbox.size_of_push_of_empty hempty hpush]
        exact haccepted
      · rw [hempty]
        exact hrefused reason
  by_cases hpop : ∃ verdict, stride = .popped verdict
  · obtain ⟨verdict, rfl⟩ := hpop
    cases h with
    | pop =>
      refine ⟨a, a.pays_nil, ?_⟩
      rcases Surroundings.pop_of_meet hmeet with ⟨hpop, rfl, rfl⟩ | ⟨oldest, outbox, hpop, rfl, rfl⟩
      · rw [Delivery.Outbox.size_of_pop_none hpop] at hs ⊢
        exact hs
      · rw [Delivery.Outbox.size_of_pop hpop] at hs
        exact hs oldest
  have hpush' : ∀ verdict answer, stride ≠ .pushed verdict answer :=
    fun verdict answer hstride => hpush ⟨verdict, answer, hstride⟩
  have hpop' : ∀ verdict, stride ≠ .popped verdict := fun verdict hstride => hpop ⟨verdict, hstride⟩
  rw [Surroundings.outbox_of_meet hmeet hpush' hpop']
  exact h.spends_of_same hpush' hpop' hs

end Standing

/-- The steps of other threads are no acts of the run. -/
lemma actsOf_eq_nil {strides : List Stride}
    (h : ∀ stride ∈ strides, ∃ thread, stride = .other thread) : actsOf strides = [] := by
  refine List.filterMap_eq_nil_iff.mpr fun stride hmem => ?_
  obtain ⟨thread, rfl⟩ := h stride hmem
  rfl

namespace Surroundings

def state (e : Surroundings) : HandleState := e.shared.handle.state

/-- What becomes of the surroundings while a call does these acts. Once its handle is not idle it
does nothing more; before that it may go through one run. -/
structure Ages (plan : Plan) (e f : Surroundings) (acts : List Act) : Prop where
  rank : e.state.rank ≤ f.state.rank
  begun : e.state ≠ .idle → acts = []
  unused : e.state = .idle → e.outbox.size = 0 →
    (f.state = .idle ∧ f.outbox.size = 0 ∧ acts = []) ∨
      (f.state ≠ .idle ∧ plan.allowance.Covers acts)

variable {plan : Plan} {e f g : Surroundings} {acts first later : List Act}

namespace Ages

/-- Other threads may have disposed the handle. -/
lemma of_same (hrank : e.state.rank ≤ f.state.rank) (houtbox : f.outbox = e.outbox) :
    Ages plan e f [] := by
  refine ⟨hrank, fun _ => rfl, fun _ hempty => ?_⟩
  by_cases hidle : f.state = .idle
  · rw [← houtbox] at hempty
    exact Or.inl ⟨hidle, hempty, rfl⟩
  · exact Or.inr ⟨hidle, Allowance.covers_nil _⟩

lemma trans (h : Ages plan e f first) (hlater : Ages plan f g later) :
    Ages plan e g (first ++ later) := by
  refine ⟨Nat.le_trans h.rank hlater.rank, fun hstate => ?_, fun hidle hempty => ?_⟩
  · rw [h.begun hstate, hlater.begun (HandleState.ne_idle_of_rank_le h.rank hstate)]
    rfl
  · rcases h.unused hidle hempty with ⟨hstill, hnone, rfl⟩ | ⟨hstate, hcovers⟩
    · exact hlater.unused hstill hnone
    · rw [hlater.begun hstate, List.append_nil]
      exact Or.inr ⟨HandleState.ne_idle_of_rank_le hlater.rank hstate, hcovers⟩

/-- Over a life that begins with an empty outbox, a call keeps to the allowance of its plan. -/
lemma covers (h : Ages plan e f acts) (hempty : e.outbox.size = 0) : plan.allowance.Covers acts := by
  by_cases hidle : e.state = .idle
  · rcases h.unused hidle hempty with ⟨-, -, rfl⟩ | ⟨-, hcovers⟩
    · exact Allowance.covers_nil _
    · exact hcovers
  · rw [h.begun hidle]
    exact Allowance.covers_nil _

/-- A call whose handle is still idle has done nothing. -/
lemma nothing (h : Ages plan e f acts) (hempty : e.outbox.size = 0) (hidle : f.state = .idle) :
    acts = [] := by
  by_cases hbefore : e.state = .idle
  · rcases h.unused hbefore hempty with ⟨-, -, hnothing⟩ | ⟨hstate, -⟩
    · exact hnothing
    · exact absurd hidle hstate
  · exact h.begun hbefore

end Ages

end Surroundings

namespace Race

variable {r s : Race} {stride : Stride} {strides : List Stride} {a : Allowance}

lemma rank_step (h : r.step stride = some s) : r.around.state.rank ≤ s.around.state.rank := by
  rcases step_cases h with ⟨thread, shared, -, hshared, rfl⟩ | ⟨-, hmeet⟩
  · rcases (SharedHandle.steps_of_step hshared).advances with hsame | hadvances
    · exact Nat.le_of_eq (congrArg HandleState.rank hsame).symm
    · exact hadvances.rank_le
  · by_cases hstart : ∃ won, stride = .started won
    · obtain ⟨won, rfl⟩ := hstart
      rw [(Surroundings.start_of_meet hmeet).2]
      exact r.around.shared.handle.rank_start
    · have hshared := Surroundings.shared_of_meet hmeet fun won hwon => hstart ⟨won, hwon⟩
      exact Nat.le_of_eq (congrArg (·.handle.state.rank) hshared.symm)

/-- A race does not take its handle back. -/
theorem rank_follow (h : r.follow strides = some s) :
    r.around.state.rank ≤ s.around.state.rank := by
  induction strides generalizing r with
  | nil =>
    cases h
    exact Nat.le_refl _
  | cons stride strides ih =>
    obtain ⟨mid, hstep, hrest⟩ := follow_cons_eq_some h
    exact Nat.le_trans (rank_step hstep) (ih hrest)

/-- A run keeps to what it may still do, wherever it is broken off. -/
theorem covers_follow (h : r.follow strides = some s)
    (hr : r.standing.Spends r.around.outbox.size a) : a.Covers (actsOf strides) := by
  induction strides generalizing r a with
  | nil => exact a.covers_nil
  | cons stride strides ih =>
    obtain ⟨mid, hstep, hrest⟩ := follow_cons_eq_some h
    rw [actsOf_cons]
    rcases step_cases hstep with ⟨thread, shared, rfl, -, rfl⟩ | ⟨hlead, hmeet⟩
    · exact ih hrest hr
    · obtain ⟨b, hpays, hmid⟩ := hlead.spends hmeet hr
      exact (ih hrest hmid).append hpays

end Race

namespace Surroundings

variable {plan : Plan} {e f : Surroundings}

/-- A race that has not started yet: the run gets hold of the handle, or it does nothing. -/
theorem ages_race {next : Bool → Course} (hlate : next false = .finished)
    (hspends : (next true).Spends 0 plan.allowance) {strides : List Stride} {r : Race}
    (h : Race.follow ⟨e, .before (.start next)⟩ strides = some r) :
    Ages plan e r.around (actsOf strides) := by
  induction strides generalizing e with
  | nil =>
    cases h
    exact .of_same (Nat.le_refl _) rfl
  | cons stride strides ih =>
    obtain ⟨mid, hstep, hrest⟩ := Race.follow_cons_eq_some h
    have hrank := Race.rank_step hstep
    rcases Race.step_cases hstep with ⟨thread, shared, rfl, -, rfl⟩ | ⟨hlead, hmeet⟩
    · exact (Ages.of_same hrank rfl).trans (ih hrest)
    obtain ⟨won, rfl, hstanding⟩ := hlead.of_start
    obtain ⟨hwon, haround⟩ := start_of_meet hmeet
    have hafter := Race.rank_follow hrest
    have houtbox : mid.around.outbox = e.outbox := by rw [haround]
    cases won with
    | false =>
      have hover : mid.IsOver := hstanding.trans (congrArg Standing.before hlate)
      have hnothing : actsOf strides = [] := actsOf_eq_nil (Race.follow_of_isOver hrest hover)
      refine ⟨Nat.le_trans hrank hafter, fun _ => hnothing, fun hidle _ => ?_⟩
      have hfirst := e.shared.handle.start_fst_eq_true_iff.mpr hidle
      rw [hwon] at hfirst
      cases hfirst
    | true =>
      have hidle : e.state = .idle := e.shared.handle.start_fst_eq_true_iff.mp hwon
      refine ⟨Nat.le_trans hrank hafter, fun hstate => absurd hidle hstate, fun _ hempty => ?_⟩
      refine Or.inr ⟨?_, ?_⟩
      · have hrunning : mid.around.state ≠ .idle := by
          rw [haround]
          exact e.shared.handle.state_start_ne_idle
        exact HandleState.ne_idle_of_rank_le hafter hrunning
      · rw [← houtbox] at hempty
        have hmid : mid.standing.Spends mid.around.outbox.size plan.allowance := by
          rw [hstanding, hempty]
          exact hspends
        show plan.allowance.Covers (actsOf strides)
        exact Race.covers_follow hrest hmid

/-- The surroundings after some runs of a plan, each in its manner and as far as its steps go. -/
def live (plan : Plan) (e : Surroundings) : List (Manner × List Stride) → Option Surroundings
  | [] => some e
  | (manner, strides) :: rest => do
    let r ← Race.follow ⟨e, .before (plan.course manner)⟩ strides
    r.around.live plan rest

/-- The acts of some runs. -/
def actsIn (runs : List (Manner × List Stride)) : List Act := runs.flatMap (actsOf ·.2)

/-- What becomes of the surroundings over any number of runs. -/
theorem ages_live {runs : List (Manner × List Stride)} (h : e.live plan runs = some f) :
    Ages plan e f (actsIn runs) := by
  induction runs generalizing e with
  | nil =>
    cases h
    exact .of_same (Nat.le_refl _) rfl
  | cons run rest ih =>
    obtain ⟨manner, strides⟩ := run
    obtain ⟨r, hrace, hrest⟩ := Option.bind_eq_some_iff.mp h
    obtain ⟨next, hcourse, hlate, hspends⟩ := Course.isRun_course plan manner
    rw [hcourse] at hrace
    exact (ages_race hlate hspends hrace).trans (ih hrest)

end Surroundings

end Redial
