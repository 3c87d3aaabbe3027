import Redial.Proofs.SlicedPauses

/-!
# Retries on schedule

The retries that a run tells of are those of the schedule of its plan, one after the other, and a run
waits between two attempts as long as it has told. What an asynchronous run waits for is up to its
timer; a blocking run sleeps through the delay by itself.
-/

namespace Redial

open Course (slice clockLimit)

namespace Race

/-- The retries of a run walk its schedule. There are no more attempts than the limit permits and no
more retries than it has, and their count never outgrows 32 bits. The retries that were told so far
are the first ones of the schedule, each with its own delay. When the `i`-th retry is told, `i`
attempts have begun and ended, whether a fault or an unsuccessful result asks for the retry, and the
run pauses for the `i`-th delay of the schedule before the next attempt. A blocking run that has set
out on the pause sleeps as long as the loop of the pause makes it, and goes on to the next attempt
when the delay has passed or the handle is disposed, and not before. -/
theorem retries_walk_the_schedule (plan : Plan) (manner : Manner) (shared : SharedHandle)
    (strides : List Stride) (t : Race) (h : (begin plan manner shared).follow strides = some t) :
    plan.limit.maxAttempts ≤ UInt32.size ∧
    (∀ notice k, .told notice ∈ strides → notice.attempt = some k → k ≤ plan.limit.maxAttempts) ∧
    (retriesTold strides).length ≤ plan.limit.retries ∧
    (∀ i notice, (retriesTold strides)[i]? = some notice →
      ∃ delay, plan.backoff.delay i (plan.draws i) = .ok delay ∧ notice = .retry (i + 1) delay) ∧
    ∀ front notice, strides = front ++ [.told notice] → notice.kind = .retryScheduled →
      let i := (retriesTold front).length + 1
      bodiesBegun front = i ∧ bodiesEnded front = i ∧
      ∃ p delay, p.attempt = i ∧ p.retryIndex = i - 1 ∧
        plan.backoff.delay p.retryIndex (plan.draws p.retryIndex) = .ok delay ∧
        notice = .retry i delay ∧
        t.standing = .before
          (manner.pausing delay (plan.attempts (plan.limit.maxAttempts - i) p manner)) ∧
        ∀ clock start rest u, manner = .blocking → start + delay.nanos < clockLimit →
          t.follow (.clockRead start :: rest) = some u →
          KeepsTime clock (.clockRead start :: rest) →
          ∃ pausing behind phase s, rest = pausing ++ behind ∧
            t.follow (.clockRead start :: pausing) = some s ∧ s.follow behind = some u ∧
            (Pause.loop (start + delay.nanos)).along .looking (pausing.filter Stride.isOwn) =
              some phase ∧
            sleeps pausing ≤ (delay.nanos + slice - 1) / slice ∧ (phase ≠ .ended → behind = []) ∧
            (phase = .ended →
              s.standing = .before (plan.attempts (plan.limit.maxAttempts - i) p manner) ∧
              ((pausing.getLast? = some (.looked true) ∧ s.isDisposed = true) ∨
                ∃ now, pausing.getLast? = some (.clockRead now) ∧ start + delay.nanos ≤ now)) := by
  refine ⟨plan.limit.retries_lt, fun notice k htold hk => ?_, ?_,
    fun i notice hi => (retry_of_follow h hi).2, ?_⟩
  · obtain ⟨front, s, hs⟩ := begin_of_told h htold
    obtain ⟨_, -, htime⟩ := onTime_of_follow hs
    exact htime.attempt k hk
  · cases hretries : (retriesTold strides).length with
    | zero => exact Nat.zero_le _
    | succ last =>
      have hlast : last < (retriesTold strides).length := hretries ▸ last.lt_succ_self
      exact (retry_of_follow h (List.getElem?_eq_getElem hlast)).1
  · rintro front notice rfl hkind i
    obtain ⟨next, hstanding, htime⟩ := onTime_of_follow h
    obtain ⟨p, delay, hp, hbegun, hended, hlimit, hdelay, hnotice, hnext⟩ := htime.retry hkind
    have hindex : p.retryIndex = (retriesTold front).length := by
      rw [Progress.retryIndex_eq hlimit, hp]
      exact Nat.add_sub_cancel _ _
    rw [hp] at hbegun hended hnotice hnext
    refine ⟨hbegun, hended, p, delay, hp, hindex, ?_, hnotice, hnext ▸ hstanding, ?_⟩
    · rw [hindex]
      exact hdelay
    · rintro clock start rest u rfl hroom hfollow hclock
      obtain ⟨begun, pausing, behind, phase, s, hset, rfl, hreached, hbehind, hall⟩ :=
        exists_reached_of_pause (hnext ▸ hstanding) hroom hfollow hclock
      have hpausing : t.follow (.clockRead start :: pausing) = some s := by
        rw [follow_cons, hset]
        exact hreached.follow
      refine ⟨pausing, behind, phase, s, rfl, hpausing, hbehind, hreached.along, hreached.sleeps_le,
        hall, ?_⟩
      rintro rfl
      exact hreached.returned

/-- What a clock shows to a run that pauses for a slice from five on. -/
def sleepy (i : Nat) : Nat := if i ≤ 3 then 5 else 10_000_007

lemma keepsTime_sleepy : KeepsTime sleepy [.clockRead 5, .looked false, .clockRead 5,
    .slept 10_000_000, .looked false, .clockRead 10_000_007, .looked false] where
  mono i j hle := by
    unfold sleepy
    split_ifs <;> omega
  read i now hi := by
    have hlt : i < 7 := (List.getElem?_eq_some_iff.mp hi).1
    interval_cases i <;> simp_all [sleepy]
  slept i nanos hi := by
    have hlt : i < 7 := (List.getElem?_eq_some_iff.mp hi).1
    interval_cases i <;> simp_all [sleepy]; omega

/-- A fault asks for the first retry and an unsuccessful result for the second one, which waits
twice as long. A blocking run with a shorter schedule sleeps through its first pause in one slice. -/
theorem retries_walk_the_schedule_doubling :
    let tenth := Duration.ofMillis 100
    let doubling := Delay.Backoff.exponential tenth .longest (.finite false (2 * Binary64.one))
    let plan : Plan :=
      { Plan.canceled with limit := .ofNat 2, rule := ⟨none, true⟩, backoff := doubling }
    let first := Notice.retry 1 tenth
    let second := Notice.retry 2 (Duration.ofMillis 200)
    let front : List Stride :=
      [.started true, .looked false, .told { kind := .attemptStarting, attempt := some 1 },
        .bodyBegan, .bodyEnded (.error .canceled), .told (.failure 1 .canceled), .told first,
        .waited tenth, .looked false, .told { kind := .attemptStarting, attempt := some 2 },
        .bodyBegan, .bodyEnded (.ok ⟨false, "unlucky"⟩),
        .told { kind := .resultUnsuccessful, attempt := some 2, remaining := some 1 }]
    ∃ t, (begin plan .asynchronous { uses := [] }).follow (front ++ [.told second]) = some t ∧
      retriesTold (front ++ [.told second]) = [first, second] ∧
      (∃ delay, doubling.delay 1 (plan.draws 1) = .ok delay ∧ second = .retry 2 delay) ∧
      bodiesBegun front = 2 ∧ bodiesEnded front = 2 ∧
      let brisk : Plan := { Plan.canceled with
        limit := .ofNat 2, backoff := .exponential (.ofMillis 10) .longest Delay.Backoff.unitFactor }
      let attempt : List Stride :=
        [.started true, .looked false, .told { kind := .attemptStarting, attempt := some 1 },
          .bodyBegan, .bodyEnded (.error .canceled), .told (.failure 1 .canceled)]
      let rest : List Stride :=
        [.looked false, .clockRead 5, .slept 10_000_000, .looked false, .clockRead 10_000_007,
          .looked false]
      ∃ paused u, (begin brisk .blocking { uses := [] }).follow
          (attempt ++ [.told (.retry 1 (.ofMillis 10))]) = some paused ∧
        paused.follow (.clockRead 5 :: rest) = some u ∧ KeepsTime sleepy (.clockRead 5 :: rest) ∧
        ∃ pausing behind phase s, rest = pausing ++ behind ∧
          paused.follow (.clockRead 5 :: pausing) = some s ∧ s.follow behind = some u ∧
          sleeps pausing ≤ 1 ∧ (phase ≠ Pause.ended → behind = []) ∧
          (phase = Pause.ended → (pausing.getLast? = some (.looked true) ∧ s.isDisposed = true) ∨
            ∃ now, pausing.getLast? = some (.clockRead now) ∧ 10_000_005 ≤ now) := by
  intro tenth doubling plan first second front
  have hruns : ((begin plan .asynchronous { uses := [] }).follow
      (front ++ [.told second])).isSome = true := by
    decide +kernel
  obtain ⟨t, ht⟩ := Option.isSome_iff_exists.mp hruns
  obtain ⟨-, -, -, hdelays, hlast⟩ :=
    retries_walk_the_schedule plan .asynchronous { uses := [] } (front ++ [.told second]) t ht
  obtain ⟨hbegun, hended, -⟩ := hlast front second rfl rfl
  refine ⟨t, ht, rfl, hdelays 1 second rfl, hbegun, hended, ?_⟩
  intro brisk attempt rest
  let told : List Stride := attempt ++ [.told (.retry 1 (.ofMillis 10))]
  have hpauses : (((begin brisk .blocking { uses := [] }).follow told).bind
      (·.follow (.clockRead 5 :: rest))).isSome = true := by
    decide +kernel
  obtain ⟨u, hu⟩ := Option.isSome_iff_exists.mp hpauses
  obtain ⟨paused, hpaused, hrest⟩ := Option.bind_eq_some_iff.mp hu
  obtain ⟨-, -, -, -, hretry⟩ :=
    retries_walk_the_schedule brisk .blocking { uses := [] } told paused hpaused
  obtain ⟨-, -, p, delay, -, -, -, hnotice, -, hpause⟩ := hretry attempt _ rfl rfl
  obtain rfl : Duration.ofMillis 10 = delay := by
    cases hnotice
    rfl
  obtain ⟨pausing, behind, phase, s, hsplit, hpausing, hbehind, -, hsleeps, hall, hover⟩ :=
    hpause sleepy 5 rest u rfl (by decide) hrest keepsTime_sleepy
  exact ⟨paused, u, hpaused, hrest, keepsTime_sleepy, pausing, behind, phase, s, hsplit, hpausing,
    hbehind, hsleeps, hall, fun hended => (hover hended).2⟩

end Race

end Redial
