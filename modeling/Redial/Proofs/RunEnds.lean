import Mathlib.Algebra.Order.BigOperators.Group.Finset
import Redial.Proofs.OneRun
import Redial.Proofs.OrderlyScenes

/-!
# Runs come to an end

However the runs of some calls are nested, all of them end. The bounds that the courses count down
are not the reason: the loop over the attempts and the loop over the looks of a pause stop by
themselves before. Nor is the bound on the depth: in single steps, where there is none, a run ends
as well, at the same place. And all the bodies together are invoked no more often than the calls
that have not begun have attempts.
-/

namespace Redial

open StateTransition

namespace Course

variable {plan : Plan} {p : Progress}

/-- One round of the loop over the attempts of a blocking run; `again` are the further rounds. -/
def attemptOnce (plan : Plan) (again : Progress → Course) (p : Progress) : Course :=
  askDisposed fun disposed =>
    if disposed then report (p.notice .deliverySuppressed) finished
    else
      let p := p.begin
      report (p.notice .attemptStarting) <| invoke fun output =>
        settle plan p output (fun p delay => pause delay (again p)) deliver

/-- One round of the loop of a pause; `again` are the further rounds. -/
def lookOnce (deadline : Nat) (next again : Course) : Course :=
  askDisposed fun disposed =>
    if disposed then next
    else readClock fun now =>
      if deadline ≤ now then next else sleep (min (deadline - now) slice) again

lemma attemptOnce_blockingAttempts (plan : Plan) (left : Nat) (p : Progress) :
    attemptOnce plan (blockingAttempts plan left) p = blockingAttempts plan (left + 1) p := rfl

lemma pauseUntil_eq_iterate (deadline : Nat) (next : Course) (looks : Nat) :
    pauseUntil deadline next looks = (lookOnce deadline next)^[looks] next := by
  induction looks with
  | zero => rfl
  | succ looks ih =>
    rw [Function.iterate_succ_apply', ← ih]
    rfl

lemma schedule_congr {retry retry' : Duration → Course} (h : ∀ delay, retry delay = retry' delay) :
    schedule plan p retry = schedule plan p retry' := by
  have hsame : retry = retry' := funext h
  rw [hsame]

/-- An attempt is only judged worth another one while attempts are left. -/
lemma settle_congr {retry retry' : Progress → Duration → Course}
    {finish : Progress → Verdict → Course}
    (h : ∀ q delay, q.attempt = p.attempt → q.mayRetry plan.limit = true →
      retry q delay = retry' q delay) (output : Output) :
    settle plan p output retry finish = settle plan p output retry' finish := by
  cases output with
  | ok result =>
    unfold settle
    dsimp only
    split
    · rfl
    · congr 1
      split
      case isTrue hagain =>
        simp only [Bool.and_eq_true] at hagain
        apply schedule_congr
        intro delay
        exact h _ delay (Progress.attempt_spend p _) hagain.2
      case isFalse => rfl
  | error fault =>
    unfold settle
    dsimp only
    congr 2
    funext again
    split
    case isTrue hagain =>
      simp only [Bool.and_eq_true] at hagain
      apply schedule_congr
      intro delay
      exact h p delay rfl hagain.2
    case isFalse => rfl

/-- A round goes on to another one only while attempts are left. -/
lemma attemptOnce_congr {again again' : Progress → Course}
    (h : ∀ q, q.attempt = p.attempt + 1 → q.mayRetry plan.limit = true → again q = again' q) :
    attemptOnce plan again p = attemptOnce plan again' p := by
  unfold attemptOnce
  congr 1
  funext disposed
  split
  · rfl
  · dsimp only
    congr 2
    funext output
    apply settle_congr
    intro q delay hq hmay
    rw [h q hq hmay]

/-- The loop over the attempts stops by itself at the last one. -/
lemma iterate_attemptOnce_of_attempt (last : Progress → Course) (left extra : Nat)
    (hp : p.attempt + left + 1 = plan.limit.maxAttempts) :
    (attemptOnce plan)^[left + extra + 1] last p = blockingAttempts plan (left + 1) p := by
  induction left generalizing p with
  | zero =>
    rw [Function.iterate_succ_apply', ← attemptOnce_blockingAttempts]
    apply attemptOnce_congr
    intro q hq hmay
    have hlt := Progress.attempt_lt hmay
    omega
  | succ left ih =>
    rw [Function.iterate_succ_apply', ← attemptOnce_blockingAttempts]
    apply attemptOnce_congr
    intro q hq _
    rw [Nat.add_right_comm left 1 extra]
    apply ih
    omega

/-- However far the loop over the attempts is unrolled, and whatever is put at its end, it is the
same. -/
theorem iterate_attemptOnce (plan : Plan) (last : Progress → Course) {rounds : Nat}
    (hrounds : plan.limit.maxAttempts ≤ rounds) :
    (attemptOnce plan)^[rounds] last (.start plan.limit) =
      blockingAttempts plan plan.limit.maxAttempts (.start plan.limit) := by
  obtain ⟨extra, rfl⟩ := Nat.exists_eq_add_of_le hrounds
  have hmost : plan.limit.maxAttempts = plan.limit.retries + 1 := rfl
  have hstart : (Progress.start plan.limit).attempt = 0 := rfl
  rw [hmost, Nat.add_right_comm]
  apply iterate_attemptOnce_of_attempt
  omega

end Course

namespace Exchange

open Course

variable {x y : Exchange} {c d : CallId} {plan : Plan}

/-- A pause stops by itself when its time has passed. -/
lemma follow_iterate_lookOnce (nesting : Nesting) (c : CallId) (deadline : Nat) (next : Course)
    (last last' : Course) (looks : Nat) (x : Exchange)
    (htime : deadline ≤ x.clock + looks * slice) :
    follow nesting c ((lookOnce deadline next)^[looks + 1] last) x =
      follow nesting c ((lookOnce deadline next)^[looks + 1] last') x := by
  induction looks generalizing x with
  | zero =>
    have hreached : deadline ≤ x.clock := by omega
    rw [Function.iterate_one, lookOnce, lookOnce, follow, follow]
    split
    · rfl
    · rw [follow, follow, if_pos hreached, if_pos hreached]
  | succ looks ih =>
    rw [Function.iterate_succ_apply', Function.iterate_succ_apply' _ _ last', lookOnce, lookOnce, follow,
      follow]
    split
    · rfl
    · rw [follow, follow]
      by_cases hreached : deadline ≤ x.clock
      · rw [if_pos hreached, if_pos hreached]
      · rw [if_neg hreached, if_neg hreached, follow, follow]
        -- The last look sleeps up to the deadline, each one before it a whole slice.
        apply ih
        rw [clock_elapse]
        rw [Nat.succ_mul] at htime
        omega

/-- However far the loop of a pause is unrolled, and whatever is put at its end, the pause is the
same. -/
theorem follow_pauseUntil_looksFor (nesting : Nesting) (c : CallId) (delay : Duration)
    (next last : Course) {looks : Nat} (hlooks : looksFor delay ≤ looks) (x : Exchange) :
    follow nesting c ((lookOnce (x.clock + delay.nanos) next)^[looks] last) x =
      follow nesting c (pauseUntil (x.clock + delay.nanos) next (looksFor delay)) x := by
  obtain ⟨extra, rfl⟩ := Nat.exists_eq_add_of_le hlooks
  rw [Function.iterate_add_apply, pauseUntil_eq_iterate]
  apply follow_iterate_lookOnce
  have henough := Nat.div_add_mod (delay.nanos + slice - 1) slice
  have hrest : (delay.nanos + slice - 1) % slice < slice := Nat.mod_lt _ (by decide)
  have hslice : 0 < slice := by decide
  rw [Nat.mul_comm] at henough
  omega

open Finset

/-- How often the body of call `c` has been invoked. -/
def bodies (x : Exchange) (c : CallId) : Nat := (x.acts c).countP Act.isBody

/-- The attempts that the plan of call `c` allows: one and the retries. -/
def attempts (x : Exchange) (c : CallId) : Nat :=
  match x.call? c with
  | none => 0
  | some call => call.plan.limit.retries + 1

/-- The calls that there are. -/
def known (x : Exchange) : Finset CallId :=
  (range x.calls.length).filter fun c => (x.call? c).isSome

/-- The calls that have neither been run nor disposed. -/
def idle (x : Exchange) : Finset CallId :=
  x.known.filter fun c => (x.call? c).any fun call => call.handle.state = .idle

lemma bodies_of_ages (hsettled : x.Settled) (hknown : c ∈ x.known) (h : Ages c x y) :
    y.bodies c ≤ x.bodies c + if c ∈ x.idle then x.attempts c else 0 := by
  obtain ⟨call, hcall⟩ := Option.isSome_iff_exists.mp (mem_filter.mp hknown).2
  have hempty : call.outbox.size = 0 := congrArg List.length (hsettled c call hcall)
  unfold bodies
  by_cases hidle : call.handle.state = .idle
  · have hin : c ∈ x.idle := by
      apply mem_filter.mpr
      refine ⟨hknown, ?_⟩
      rw [hcall]
      exact decide_eq_true hidle
    have hattempts : x.attempts c = call.plan.allowance.bodies := by
      unfold attempts
      rw [hcall]
      rfl
    rw [if_pos hin, hattempts]
    rcases h.unused call.plan ⟨call, hcall, rfl, hidle, hempty⟩ with
      ⟨-, hacts⟩ | ⟨n, l, -, hacts, hcovers⟩
    · rw [hacts]
      exact Nat.le_add_right _ _
    · rw [hacts, List.countP_append]
      exact Nat.add_le_add_left hcovers.bodies _
  · rw [(h.begun 0 ⟨call, hcall, hidle, hempty⟩).2]
    exact Nat.le_add_right _ _

/-- All bodies together are invoked no more often than the idle calls have attempts. -/
theorem sum_bodies_le (hsettled : x.Settled) (h : ∀ c, Ages c x y) :
    ∑ c ∈ x.known, y.bodies c ≤ ∑ c ∈ x.known, x.bodies c + ∑ c ∈ x.idle, x.attempts c := by
  have hidle : ∑ c ∈ x.idle, x.attempts c =
      ∑ c ∈ x.known, if c ∈ x.idle then x.attempts c else 0 := by
    rw [← sum_filter]
    congr 1
    ext c
    rw [mem_filter]
    exact ⟨fun hc => ⟨mem_of_mem_filter c hc, hc⟩, fun hc => hc.2⟩
  rw [hidle, ← sum_add_distrib]
  apply sum_le_sum
  intro c hc
  exact bodies_of_ages hsettled hc (h c)

end Exchange

namespace Session

open Exchange Course

/-- Every blocking run ends, with a result or a panic, whatever calls its user code runs, closes or
disposes, and however these do so in turn. It ends in single steps as well, where nothing bounds the
depth of the nesting, and with the same outcome; and so does every run on the way, whatever is going
on around it. The bounds on the rounds of the two loops are not the reason: the loops may be
unrolled as far as one likes, with anything at the end. Over any commands all bodies together are
invoked no more often than the calls that were idle before have attempts. -/
theorem nested_runs_end {s : Session} (hsettled : s.exchange.Settled) :
    let x := s.exchange
    (∀ c plan, x.runnable c = .ok plan → ∃ (how : Except Halt Unit) (y : Exchange),
      x.run c = (.ended how, y.setPresence c .here) ∧ how ≠ .error .stuck ∧
      ⟨.ended c how, [], y⟩ ∈ eval Scene.step (x.opening .blocking c plan)) ∧
    (∀ t : Scene, (eval Scene.step t).Dom ∧
      ∃ how y, Reaches Scene.step t ⟨.ended t.task.call how, t.askers, y⟩) ∧
    (∀ plan last rounds, plan.limit.maxAttempts ≤ rounds →
      (attemptOnce plan)^[rounds] last (.start plan.limit) =
        blockingAttempts plan plan.limit.maxAttempts (.start plan.limit)) ∧
    (∀ nesting c delay next last looks z, looksFor delay ≤ looks →
      follow nesting c ((lookOnce (z.clock + delay.nanos) next)^[looks] last) z =
        follow nesting c (pauseUntil (z.clock + delay.nanos) next (looksFor delay)) z) ∧
    (∀ commands, ∑ c ∈ x.known, (s.steps commands).2.exchange.bodies c ≤
      ∑ c ∈ x.known, x.bodies c + ∑ c ∈ x.idle, x.attempts c) ∧
    ∑ c ∈ x.idle, x.attempts c ≤ ∑ c ∈ x.known, x.attempts c := by
  intro x
  refine ⟨?_, ?_, ?_, ?_, ?_, ?_⟩
  · intro c plan hrunnable
    obtain ⟨how, y, hran, hleads⟩ := leadsTo_run hrunnable
    have hunstuck := (isGentle_runWithin _ x.calls.length c x (hsettled.quiet c)).1
    refine ⟨how, y, hran, ?_, mem_eval.mpr ⟨hleads.reaches, rfl⟩⟩
    intro hstuck
    apply hunstuck
    rw [← hstuck]
    exact congrArg Prod.fst hran
  · intro t
    obtain ⟨how, y, hover⟩ := t.exists_leadsTo_over
    exact ⟨t.eval_dom, how, y, hover.reaches⟩
  · intro plan last rounds hrounds
    exact iterate_attemptOnce plan last hrounds
  · intro nesting c delay next last looks z hlooks
    exact follow_pauseUntil_looksFor nesting c delay next last hlooks z
  · intro commands
    apply sum_bodies_le hsettled
    intro c
    exact kept_steps (isKept_ages c) s commands
  · apply Finset.sum_le_sum_of_subset
    exact Finset.filter_subset _ _

/-- A call whose body and callback run another call, and which needs two attempts. -/
def entwinedWith (other : CallId) : Draft where
  body := some fun n =>
    .run other fun _ => .done (if n = 1 then .error .canceled else .ok ⟨true, "done"⟩)
  limit := ⟨1, by decide⟩
  onSuccess := some fun _ => .run other fun _ => .done ()

/-- Two calls that run each other. -/
def entwined : Session := (openWith [] [entwinedWith 1, entwinedWith 0] (.usual .latest) (fun _ _ => 0) true).2

/-- Two calls whose bodies run each other, and whose callbacks do so as well. Each body is invoked
twice in a run of the first call, and not in a later one. -/
theorem nested_runs_end_entwined :
    (∃ (how : Except Halt Unit) (y : Exchange),
      entwined.exchange.run 0 = (.ended how, y.setPresence 0 .here) ∧ how ≠ .error .stuck) ∧
    ∑ c ∈ entwined.exchange.known, (entwined.steps [.run 0, .run 1, .run 0]).2.exchange.bodies c = 4 ∧
    ∑ c ∈ entwined.exchange.known, (entwined.steps [.run 0, .run 1, .run 0]).2.exchange.bodies c ≤
      ∑ c ∈ entwined.exchange.known, entwined.exchange.bodies c +
        ∑ c ∈ entwined.exchange.idle, entwined.exchange.attempts c := by
  have hsettled : entwined.exchange.Settled := settled_openWith [] _ _ _ _
  obtain ⟨hends, -, -, -, hbodies, -⟩ := nested_runs_end hsettled
  refine ⟨?_, ?_, hbodies _⟩
  · obtain ⟨plan, hrunnable⟩ : ∃ plan, entwined.exchange.runnable 0 = .ok plan := ⟨_, rfl⟩
    obtain ⟨how, y, hran, hunstuck, -⟩ := hends 0 plan hrunnable
    exact ⟨how, y, hran, hunstuck⟩
  · decide +kernel

end Session

end Redial
