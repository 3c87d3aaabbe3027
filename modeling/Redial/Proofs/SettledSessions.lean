import Redial.Proofs.NestedRuns
import Redial.Proofs.SessionSteps

/-!
# Outboxes between commands

Between the commands of a session all outboxes are empty: they are when the session opens, and a run
leaves no verdict behind, however it ends. So a run never waits for room in an outbox.
-/

namespace Redial

namespace Exchange

variable {x y : Exchange}

namespace Settled

lemma of_calls (h : x.Settled) (hcalls : y.calls = x.calls) : y.Settled := by
  intro c call hcall
  rw [call?_congr hcalls] at hcall
  exact h c call hcall

lemma perform (h : x.Settled) (deed : Deed) (c : CallId) : (x.perform deed c).2.Settled :=
  (perform_calm (h.quiet c) deed c).1.settled

/-- A blocking run leaves nothing in the outboxes, however it ends. -/
theorem run (h : x.Settled) (c : CallId) : (x.run c).2.Settled :=
  (isGentle_runWithin _ x.calls.length c x (h.quiet c)).2.1.settled

theorem runAsync (h : x.Settled) (c : CallId) : (x.runAsync c).2.Settled := by
  unfold Exchange.runAsync
  split
  case h_1 => exact h
  case h_2 plan hrunnable =>
    obtain ⟨call, hcall, -⟩ := exists_of_runnable hrunnable
    obtain ⟨hgone, hcalm⟩ := setPresence_calm (h.quiet c) not_false .gone
    have hknown := hcalm.isSome (e := c) (by rw [hcall]; rfl)
    have hfollowed := gentle_follow (isGentle_runWithin _ (x.setPresence c .gone).calls.length)
      not_false (Course.tidy_async plan) hgone hknown
    exact (hfollowed.quiet.release c).settled

end Settled

end Exchange

namespace Session

open Exchange

/-- Each operation of a session leaves the outboxes empty. -/
lemma isKept_settled : IsKept fun x y => x.Settled → y.Settled where
  same hcalls _ h := h.of_calls hcalls
  trans hxy hyz h := hyz (hxy h)
  perform _ deed c h := h.perform deed c
  run _ c h := h.run c
  runAsync _ c h := h.runAsync c

/-- A session opens with empty outboxes. -/
theorem settled_openWith (capacities : List Nat) (drafts : List Draft) (usual : Delivery.Settings)
    (draws : Nat → Nat → Nat) (quiet : Bool) :
    (openWith capacities drafts usual draws quiet).2.exchange.Settled :=
  (opened_openWith capacities drafts usual draws quiet).2 (fun call => call.outbox.queue = [])
    fun _ _ _ => rfl

/-- All outboxes are empty after any number of commands. -/
theorem settled_steps {s : Session} (h : s.exchange.Settled) (commands : List Command) :
    (s.steps commands).2.exchange.Settled :=
  kept_steps isKept_settled s commands h

end Session

end Redial
