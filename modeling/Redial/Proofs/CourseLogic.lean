import Redial.Proofs.Race

/-!
# What a course ensures

`Course.Ensures box P` is read off a course alone: on every way through it that ends without a
panic, the steps of the run satisfy `P`, whatever the looks, the clock and user code answer, as long
as the outbox starts as `box`. A race that is over has taken one of these ways, so `P` holds of the
steps of its run, wherever the steps of other threads came in between.
-/

namespace Redial

open Delivery (Outbox)

namespace Course

/-- The steps of the run satisfy `P` on every way through the course that ends without a panic. -/
def Ensures : Course → Outbox Verdict → (List Stride → Prop) → Prop
  | finished, _, P => P []
  | panics _, _, _ => True
  | start next, box, P => ∀ won, (next won).Ensures box fun l => P (.started won :: l)
  | askDisposed next, box, P =>
    ∀ disposed, (next disposed).Ensures box fun l => P (.looked disposed :: l)
  | report notice next, box, P => next.Ensures box fun l => P (.told notice :: l)
  | invoke next, box, P =>
    ∀ output, (next output).Ensures box fun l => P (.bodyBegan :: .bodyEnded output :: l)
  | dispatch next, box, P =>
    ((next none).Ensures box fun l => P (.bodyRefused :: l)) ∧
      ∀ output, (next (some output)).Ensures box fun l => P (.bodyBegan :: .bodyEnded output :: l)
  | consult fault next, box, P =>
    ∀ again, (next again).Ensures box fun l =>
      P (.predicateBegan fault :: .predicateEnded again :: l)
  | readClock next, box, P => ∀ now, (next now).Ensures box fun l => P (.clockRead now :: l)
  | sleep nanos next, box, P => next.Ensures box fun l => P (.slept nanos :: l)
  | await delay next, box, P => next.Ensures box fun l => P (.waited delay :: l)
  | push verdict next, box, P =>
    (∀ after, box.push verdict = .accepted after →
      (next (.ok after.size)).Ensures after fun l => P (.pushed verdict (.ok after.size) :: l)) ∧
    ∀ reason, box.push verdict = .refused reason →
      (next (.error reason)).Ensures box fun l => P (.pushed verdict (.error reason) :: l)
  | pop next, box, P =>
    (box.pop = none → (next none).Ensures box fun l => P (.popped none :: l)) ∧
    ∀ verdict after, box.pop = some (verdict, after) →
      (next (some verdict)).Ensures after fun l => P (.popped (some verdict) :: l)
  | callback verdict next, box, P =>
    (next.Ensures box fun l => P (.callbackBegan verdict :: .callbackEnded :: l)) ∧
      next.Ensures box fun l => P (.callbackMissing verdict :: l)

theorem Ensures.mono {course : Course} {box : Outbox Verdict} {P Q : List Stride → Prop}
    (h : course.Ensures box P) (hPQ : ∀ l, P l → Q l) : course.Ensures box Q := by
  induction course generalizing box P Q with
  | finished => exact hPQ [] h
  | panics => trivial
  | start next ih => exact fun won => ih won (h won) fun l => hPQ _
  | askDisposed next ih => exact fun disposed => ih disposed (h disposed) fun l => hPQ _
  | report _ next ih | sleep _ next ih | await _ next ih => exact ih h fun l => hPQ _
  | invoke next ih => exact fun output => ih output (h output) fun l => hPQ _
  | dispatch next ih =>
    exact ⟨ih none h.1 fun l => hPQ _, fun output => ih (some output) (h.2 output) fun l => hPQ _⟩
  | consult _ next ih => exact fun again => ih again (h again) fun l => hPQ _
  | readClock next ih => exact fun now => ih now (h now) fun l => hPQ _
  | push _ next ih =>
    exact ⟨fun after hafter => ih _ (h.1 after hafter) fun l => hPQ _,
      fun reason hreason => ih _ (h.2 reason hreason) fun l => hPQ _⟩
  | pop next ih =>
    exact ⟨fun hempty => ih none (h.1 hempty) fun l => hPQ _,
      fun verdict after hafter => ih _ (h.2 verdict after hafter) fun l => hPQ _⟩
  | callback _ next ih => exact ⟨ih h.1 fun l => hPQ _, ih h.2 fun l => hPQ _⟩

end Course

/-- `Course.Ensures` of what is left of a run. -/
def Standing.Ensures : Standing → Outbox Verdict → (List Stride → Prop) → Prop
  | .before course, box, P => course.Ensures box P
  | .inBody next, box, P =>
    ∀ output, (next output).Ensures box fun l => P (.bodyEnded output :: l)
  | .inPredicate next, box, P =>
    ∀ again, (next again).Ensures box fun l => P (.predicateEnded again :: l)
  | .inCallback next, box, P => next.Ensures box fun l => P (.callbackEnded :: l)

/-- The step is one of the run. -/
def Stride.isOwn : Stride → Bool
  | .other _ => false
  | _ => true

lemma Stride.isOwn_of_leads {s t : Standing} {stride : Stride} (h : s.Leads stride t) :
    stride.isOwn = true := by
  cases h <;> rfl

lemma Standing.Leads.ensures_of_ne {s t : Standing} {stride : Stride} {box : Outbox Verdict}
    {P : List Stride → Prop} (h : s.Leads stride t) (hs : s.Ensures box P)
    (hpush : ∀ verdict answer, stride ≠ .pushed verdict answer)
    (hpop : ∀ verdict, stride ≠ .popped verdict) : t.Ensures box fun l => P (stride :: l) := by
  cases h with
  | start won => exact hs won
  | look disposed => exact hs disposed
  | tell | sleep | wait | enterBody | enterPredicate | leaveCallback => exact hs
  | sendBody => exact hs.2
  | refuseBody => exact hs.1
  | leaveBody output => exact hs output
  | leavePredicate again => exact hs again
  | readClock now => exact hs now
  | push verdict answer => exact absurd rfl (hpush verdict answer)
  | pop verdict => exact absurd rfl (hpop verdict)
  | enterCallback => exact hs.1
  | missCallback => exact hs.2

/-- What is ensured of all steps of a run is ensured of the first one and those after it. -/
theorem Standing.Leads.ensures {s t : Standing} {stride : Stride} {e f : Surroundings}
    {P : List Stride → Prop} (h : s.Leads stride t) (hmeet : e.meet stride = some f)
    (hs : s.Ensures e.outbox P) : t.Ensures f.outbox fun l => P (stride :: l) := by
  -- Only pushes and pops change the outbox, and what they find in it decides how the run goes on.
  by_cases hpush : ∃ verdict answer, stride = .pushed verdict answer
  · obtain ⟨verdict, answer, rfl⟩ := hpush
    cases h
    rcases Surroundings.push_of_meet hmeet with ⟨after, hpush, rfl, rfl⟩ | ⟨reason, hpush, rfl, rfl⟩
    · exact hs.1 after hpush
    · exact hs.2 reason hpush
  by_cases hpop : ∃ verdict, stride = .popped verdict
  · obtain ⟨verdict, rfl⟩ := hpop
    cases h
    rcases Surroundings.pop_of_meet hmeet with ⟨hpop, rfl, rfl⟩ | ⟨oldest, after, hpop, rfl, rfl⟩
    · exact hs.1 hpop
    · exact hs.2 oldest after hpop
  have hne (verdict answer) : stride ≠ .pushed verdict answer := fun heq => hpush ⟨_, _, heq⟩
  have hne' (verdict) : stride ≠ .popped verdict := fun heq => hpop ⟨_, heq⟩
  rw [Surroundings.outbox_of_meet hmeet hne hne']
  exact h.ensures_of_ne hs hne hne'

namespace Race

/-- The steps of a run that is over satisfy all that its course ensures. -/
theorem ensures_of_follow {r s : Race} {strides : List Stride} {P : List Stride → Prop}
    (h : r.follow strides = some s) (hover : s.IsOver)
    (hr : r.standing.Ensures r.around.outbox P) : P (strides.filter Stride.isOwn) := by
  induction strides generalizing r P with
  | nil =>
    cases h
    rw [IsOver] at hover
    rw [hover] at hr
    exact hr
  | cons stride strides ih =>
    obtain ⟨t, hstep, hrest⟩ := follow_cons_eq_some h
    rcases step_cases hstep with ⟨thread, shared, rfl, hshared, rfl⟩ | ⟨hlead, hmeet⟩
    · exact ih hrest hr
    · rw [List.filter_cons_of_pos (Stride.isOwn_of_leads hlead)]
      exact ih hrest (hlead.ensures hmeet hr)

end Race

end Redial
