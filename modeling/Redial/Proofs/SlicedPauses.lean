import Mathlib.Order.Monotone.Basic
import Mathlib.Tactic.IntervalCases
import Redial.Proofs.DisposalBound
import Redial.Proofs.Pauses
import Redial.Proofs.Timetables

/-!
# Sliced pauses

A blocking run sleeps through a pause in slices, with a look at its handle and another one at the
clock before each of them. The course of a pause bounds the number of its looks; `Pause` is the loop
without any bound. On a clock that never goes back and does not lag behind the sleeps, however far it
runs ahead, the bound is never met, so the course of the pause is the loop. The loop ends in time and
not before, whenever other threads dispose the handle.
-/

namespace Redial

open Course (slice clockLimit looksFor pauseUntil)

/-- How far the loop of a pause has come. -/
inductive Pause where
  /-- It is about to look at the handle. -/
  | looking
  /-- It is about to read the clock. -/
  | timing
  | sleeping (nanos : Nat)
  | ended
  deriving DecidableEq

/-- How often a run sleeps. -/
def sleeps (strides : List Stride) : Nat :=
  strides.countP fun
    | .slept _ => true
    | _ => false

lemma sleeps_append (first rest : List Stride) :
    sleeps (first ++ rest) = sleeps first + sleeps rest :=
  List.countP_append

/-- What a clock shows before each step of a race. It never goes back, a run that reads it gets what
it shows, and it goes on by at least what the run sleeps. -/
structure KeepsTime (clock : Nat → Nat) (strides : List Stride) : Prop where
  mono : Monotone clock
  read : ∀ i now, strides[i]? = some (.clockRead now) → now = clock i
  slept : ∀ i nanos, strides[i]? = some (.slept nanos) → clock i + nanos ≤ clock (i + 1)

namespace KeepsTime

variable {clock : Nat → Nat} {stride : Stride} {strides first rest : List Stride}

lemma of_append (h : KeepsTime clock (first ++ rest)) : KeepsTime clock first := by
  have hstays {i : Nat} {stride : Stride} (hi : first[i]? = some stride) :
      (first ++ rest)[i]? = some stride := by
    obtain ⟨hlt, -⟩ := List.getElem?_eq_some_iff.mp hi
    rw [List.getElem?_append_left hlt, hi]
  exact ⟨h.mono, fun i now hi => h.read i now (hstays hi),
    fun i nanos hi => h.slept i nanos (hstays hi)⟩

/-- Time goes on after the first step. -/
lemma tail (h : KeepsTime clock (stride :: strides)) : KeepsTime (fun i => clock (i + 1)) strides where
  mono _ _ hle := h.mono (Nat.succ_le_succ hle)
  read i now hi := h.read (i + 1) now hi
  slept i nanos hi := h.slept (i + 1) nanos hi

end KeepsTime

namespace Race

variable {r t : Race} {strides : List Stride}

/-- A look at the handle that has just found it disposed. -/
lemma isDisposed_of_looked (h : r.follow (strides ++ [.looked true]) = some t) :
    t.isDisposed = true := by
  obtain ⟨q, -, hstep⟩ := exists_last_of_follow h
  rcases step_cases hstep with ⟨_, _, hother, -⟩ | ⟨-, hmeet⟩
  · cases hother
  · obtain ⟨hdisposed, haround⟩ := Surroundings.look_of_meet hmeet
    unfold isDisposed
    rw [haround]
    exact hdisposed

end Race

namespace Pause

/-- The next step of the loop, whose pause is to last until `deadline`. -/
def after? (deadline : Nat) : Pause → Stride → Option Pause
  | looking, .looked disposed => some (if disposed then ended else timing)
  | timing, .clockRead now =>
    some (if deadline ≤ now then ended else sleeping (min (deadline - now) slice))
  | sleeping nanos, .slept slept => if nanos = slept then some looking else none
  | _, _ => none

/-- The loop beside a race, moving with the steps of its run. -/
def loop (deadline : Nat) : Watch Pause where
  after? := after? deadline
  MayEnd p := p = ended

/-- The steps of the loop, one rule for each way that they go. -/
inductive Moves (deadline : Nat) : Pause → Stride → Pause → Prop
  | stop : Moves deadline looking (.looked true) ended
  | look : Moves deadline looking (.looked false) timing
  | late {now : Nat} (h : deadline ≤ now) : Moves deadline timing (.clockRead now) ended
  | early {now : Nat} (h : now < deadline) :
    Moves deadline timing (.clockRead now) (sleeping (min (deadline - now) slice))
  | wake (nanos : Nat) : Moves deadline (sleeping nanos) (.slept nanos) looking

/-- The steps of a round so far; a loop that is over is in the last round. -/
def rank : Pause → Nat
  | looking => 0
  | timing => 1
  | sleeping _ | ended => 2

variable {deadline nanos : Nat} {p q : Pause} {stride : Stride} {strides : List Stride}

lemma moves_of_after? (h : after? deadline p stride = some q) : Moves deadline p stride q := by
  revert h
  fun_cases after? deadline p stride with
  | case1 disposed =>
    rintro ⟨⟩
    cases disposed with
    | true => exact .stop
    | false => exact .look
  | case2 now =>
    rintro ⟨⟩
    split
    · exact .late ‹_›
    · exact .early (Nat.lt_of_not_le ‹_›)
  | case3 =>
    rintro ⟨⟩
    exact .wake _
  | _ => nofun

/-- A round takes three steps, the last of which is a sleep. -/
lemma Moves.rank (h : Moves deadline p stride q) :
    p.rank + 1 ≤ 3 * sleeps [stride] + q.rank := by
  cases h <;> simp [Pause.rank, sleeps]

variable {next : Course} {left now later most : Nat} {a b : Standing}

/-- Where a run stands in the course of a pause while the clock shows `now` or more, when the loop
is at `p` and need not sleep more than `left` times. -/
inductive Stands (deadline : Nat) (next : Course) (left now : Nat) : Pause → Standing → Prop
  | looking (h : deadline ≤ now + left * slice) :
    Stands deadline next left now looking (.before (pauseUntil deadline next (left + 1)))
  | timing (h : deadline ≤ now + left * slice) :
    Stands deadline next left now timing (.before (.readClock (Course.look deadline next left)))
  | sleeping {seen : Nat} (hseen : seen ≤ now) (hearly : seen < deadline)
    (h : deadline ≤ seen + left * slice) :
    Stands deadline next left now (sleeping (min (deadline - seen) slice))
      (.before (.sleep (min (deadline - seen) slice) (pauseUntil deadline next left)))
  | ended : Stands deadline next left now ended (.before next)

namespace Stands

lemma mono (h : Stands deadline next left now p a) (hle : now ≤ later) :
    Stands deadline next left later p a := by
  cases h with
  | looking h => exact .looking (by omega)
  | timing h => exact .timing (by omega)
  | sleeping hseen hearly h => exact .sleeping (Nat.le_trans hseen hle) hearly h
  | ended => exact .ended

lemma of_ended (h : Stands deadline next left now .ended a) : a = .before next := by
  cases h
  rfl

/-- A sleep takes a slice off what is left, or all of it. -/
lemma awake {seen : Nat} (hearly : seen < deadline) (h : deadline ≤ seen + left * slice)
    (hlater : seen + min (deadline - seen) slice ≤ later) :
    ∃ fewer, fewer + 1 = left ∧ deadline ≤ later + fewer * slice := by
  cases left with
  | zero => omega
  | succ fewer =>
    refine ⟨fewer, rfl, ?_⟩
    rw [Nat.succ_mul] at h
    omega

/-- The run makes the steps of the loop. -/
theorem step (h : Stands deadline next left now p a) (hp : p ≠ .ended) (hlead : a.Leads stride b)
    (hle : now ≤ later) (hread : ∀ seen, stride = .clockRead seen → now ≤ seen ∧ seen ≤ later)
    (hslept : ∀ nanos, stride = .slept nanos → now + nanos ≤ later) :
    ∃ q fewer, after? deadline p stride = some q ∧ fewer + sleeps [stride] = left ∧
      Stands deadline next fewer later q b := by
  cases h with
  | ended => exact absurd rfl hp
  | looking h =>
    obtain ⟨disposed, rfl, rfl⟩ := hlead.of_look
    cases disposed with
    | true => exact ⟨.ended, left, rfl, rfl, .ended⟩
    | false => exact ⟨.timing, left, rfl, rfl, .timing (by omega)⟩
  | timing h =>
    cases hlead with
    | readClock seen =>
      obtain ⟨hsince, huntil⟩ := hread seen rfl
      refine ⟨_, left, rfl, rfl, ?_⟩
      unfold Course.look
      split
      · exact .ended
      · exact .sleeping huntil (Nat.lt_of_not_le ‹_›) (by omega)
  | @sleeping seen hseen hearly h =>
    cases hlead with
    | sleep nanos =>
      have hlater : seen + min (deadline - seen) slice ≤ later :=
        Nat.le_trans (Nat.add_le_add_right hseen _) (hslept _ rfl)
      obtain ⟨fewer, rfl, hrest⟩ := awake hearly h hlater
      exact ⟨.looking, fewer, if_pos rfl, rfl, .looking hrest⟩

end Stands

/-- A pause that is not over goes on, whatever the clock shows. -/
lemma Stands.exists_step {s : Race} (h : Stands deadline next left now p s.standing)
    (hp : p ≠ .ended) (shown : Nat) : ∃ stride, stride.isOwn = true ∧
      (∀ seen, stride = .clockRead seen → seen = shown) ∧ (s.step stride).isSome = true := by
  obtain ⟨around, standing⟩ := s
  cases h with
  | ended => exact absurd rfl hp
  | looking =>
    refine ⟨.looked around.isDisposed, rfl, ?_, ?_⟩
    · rintro seen ⟨⟩
    · simp [Race.step, pauseUntil, Standing.after?, Surroundings.meet]
  | timing =>
    refine ⟨.clockRead shown, rfl, ?_, rfl⟩
    rintro seen ⟨⟩
    rfl
  | @sleeping seen =>
    refine ⟨.slept (min (deadline - seen) slice), rfl, ?_, ?_⟩
    · rintro seen ⟨⟩
    · simp [Race.step, Standing.after?, Surroundings.meet]

/-- After some steps of a race the loop is at `p`, and it has not slept more than `most` times. If
it is over, this came by the last step. -/
structure Reached (deadline : Nat) (next : Course) (most : Nat) (clock : Nat → Nat) (r : Race)
    (front : List Stride) (p : Pause) (s : Race) : Prop where
  follow : r.follow front = some s
  along : (loop deadline).along .looking (front.filter Stride.isOwn) = some p
  stands : ∃ left, left + sleeps front = most ∧
    Stands deadline next left (clock front.length) p s.standing
  last : p = .ended → ∃ before stride u, front = before ++ [stride] ∧
    after? deadline u stride = some .ended

namespace Reached

variable {clock : Nat → Nat} {r s t : Race} {front : List Stride}

lemma step (h : Reached deadline next most clock r front p s) (hp : p ≠ .ended)
    (hstep : s.step stride = some t) (htime : KeepsTime clock (front ++ [stride])) :
    ∃ q, Reached deadline next most clock r (front ++ [stride]) q t := by
  obtain ⟨hfollow, halong, ⟨left, hleft, hstands⟩, -⟩ := h
  have hlast : (front ++ [stride])[front.length]? = some stride := List.getElem?_concat_length
  have hlater : clock front.length ≤ clock (front.length + 1) := htime.mono (Nat.le_succ _)
  have hfollow' : r.follow (front ++ [stride]) = some t := by
    rw [Race.follow_append, hfollow, Option.bind_some, Race.follow_cons, hstep]
    rfl
  have hlength : (front ++ [stride]).length = front.length + 1 := List.length_append
  rcases Race.step_cases hstep with ⟨thread, shared, rfl, -, rfl⟩ | ⟨hlead, -⟩
  · -- Another thread makes a step, and only the clock goes on.
    refine ⟨p, hfollow', ?_, ⟨left, ?_, ?_⟩, fun hover => absurd hover hp⟩
    · rw [List.filter_append]
      exact (congrArg _ (List.append_nil _)).trans halong
    · rw [sleeps_append]
      exact hleft
    · rw [hlength]
      exact hstands.mono hlater
  · have hread (seen : Nat) (heq : stride = .clockRead seen) :
        clock front.length ≤ seen ∧ seen ≤ clock (front.length + 1) := by
      have hseen := htime.read front.length seen (heq ▸ hlast)
      exact ⟨Nat.le_of_eq hseen.symm, hseen ▸ hlater⟩
    have hslept (nanos : Nat) (heq : stride = .slept nanos) :=
      htime.slept front.length nanos (heq ▸ hlast)
    obtain ⟨q, fewer, hq, hfewer, hstands⟩ := hstands.step hp hlead hlater hread hslept
    refine ⟨q, hfollow', ?_, ⟨fewer, ?_, hlength ▸ hstands⟩, ?_⟩
    · rw [List.filter_append, Watch.along_append, halong, Option.bind_some,
        List.filter_cons_of_pos (Stride.isOwn_of_leads hlead), Watch.along_cons]
      exact Option.bind_eq_some_iff.mpr ⟨q, hq, rfl⟩
    · rw [sleeps_append]
      omega
    · rintro rfl
      exact ⟨front, stride, p, rfl, hq⟩

/-- A race begins with the steps of the loop, and goes on when that is over. -/
theorem exists_front {strides : List Stride}
    (hr : Stands deadline next most (clock 0) .looking r.standing)
    (hfollow : r.follow strides = some t) (htime : KeepsTime clock strides) :
    ∃ front rest p s, strides = front ++ rest ∧ Reached deadline next most clock r front p s ∧
      (p ≠ .ended → rest = []) := by
  -- From the right: as long as the loop is not over, each new step belongs to the front.
  induction strides using List.reverseRecOn generalizing t with
  | nil =>
    have hnone : Reached deadline next most clock r [] .looking r :=
      ⟨rfl, rfl, ⟨most, rfl, hr⟩, nofun⟩
    exact ⟨[], [], _, r, rfl, hnone, fun _ => rfl⟩
  | append_singleton strides stride ih =>
    obtain ⟨q, hq, hstep⟩ := Race.exists_last_of_follow hfollow
    obtain ⟨front, rest, p, s, rfl, hreached, hrest⟩ := ih hq htime.of_append
    by_cases hp : p = .ended
    · exact ⟨front, rest ++ [stride], p, s, List.append_assoc _ _ _, hreached,
        fun hnot => absurd hp hnot⟩
    · obtain rfl := hrest hp
      rw [List.append_nil] at hq htime ⊢
      obtain rfl : s = q := Option.some.inj (hreached.follow.symm.trans hq)
      obtain ⟨p', hreached'⟩ := hreached.step hp hstep htime
      exact ⟨front ++ [stride], [], p', t, (List.append_nil _).symm, hreached', fun _ => rfl⟩

/-- Each sleep comes right after a look at the clock, and is no longer than a slice and what was
left then. -/
lemma slept (h : Reached deadline next most clock r front p s) {before behind : List Stride}
    (hslept : front.filter Stride.isOwn = before ++ .slept nanos :: behind) :
    nanos ≤ slice ∧
      ∃ earlier now, before = earlier ++ [.clockRead now] ∧ now + nanos ≤ deadline := by
  have halong := h.along
  rw [hslept] at halong
  obtain ⟨u, v, hu, hv, -⟩ := Watch.exists_of_along halong
  cases moves_of_after? hv
  obtain ⟨earlier, stride, w, rfl, -, hw⟩ := Watch.exists_last_of_along hu nofun
  cases moves_of_after? hw with
  | @early now hearly =>
    refine ⟨Nat.min_le_right _ _, earlier, now, rfl, ?_⟩
    omega

lemma sleeps_le (h : Reached deadline next most clock r front p s) : sleeps front ≤ most := by
  obtain ⟨left, hleft, -⟩ := h.stands
  omega

/-- What ends the loop is the last thing that the run finds out. -/
lemma returned (h : Reached deadline next most clock r front .ended s) :
    s.standing = .before next ∧
      ((front.getLast? = some (.looked true) ∧ s.isDisposed = true) ∨
        ∃ now, front.getLast? = some (.clockRead now) ∧ deadline ≤ now) := by
  obtain ⟨left, -, hstands⟩ := h.stands
  obtain ⟨before, stride, u, rfl, hlast⟩ := h.last rfl
  rw [List.getLast?_concat]
  refine ⟨hstands.of_ended, ?_⟩
  cases moves_of_after? hlast with
  | stop => exact Or.inl ⟨rfl, Race.isDisposed_of_looked h.follow⟩
  | late hlate => exact Or.inr ⟨_, rfl, hlate⟩

end Reached

end Pause

namespace Race

variable {r s : Race} {delay : Duration} {next : Course} {start : Nat}

/-- The clock is read to name the deadline, which has room on it. -/
lemma stands_of_pause (hr : r.standing = .before (.pause delay next))
    (hroom : start + delay.nanos < clockLimit) (hstep : r.step (.clockRead start) = some s)
    {now : Nat} (hnow : start ≤ now) :
    Pause.Stands (start + delay.nanos) next ((delay.nanos + slice - 1) / slice) now .looking
      s.standing := by
  have henough : start + delay.nanos ≤ now + (delay.nanos + slice - 1) / slice * slice := by
    unfold slice
    omega
  have hset : s.standing = .before (Course.setOut delay next start) := by
    rcases step_cases hstep with ⟨_, _, hother, -⟩ | ⟨hlead, -⟩
    · cases hother
    · rw [hr, Course.pause_eq] at hlead
      generalize s.standing = b at hlead ⊢
      cases hlead
      rfl
  unfold Course.setOut at hset
  rw [if_pos hroom] at hset
  rw [hset]
  exact .looking henough

/-- What happens after the clock was read for the deadline begins with the steps of the loop, and
goes on when that is over. -/
lemma exists_reached_of_pause {clock : Nat → Nat} {strides : List Stride} {t : Race}
    (hr : r.standing = .before (.pause delay next)) (hroom : start + delay.nanos < clockLimit)
    (hfollow : r.follow (.clockRead start :: strides) = some t)
    (htime : KeepsTime clock (.clockRead start :: strides)) :
    ∃ begun front rest p s, r.step (.clockRead start) = some begun ∧ strides = front ++ rest ∧
      Pause.Reached (start + delay.nanos) next ((delay.nanos + slice - 1) / slice)
        (fun i => clock (i + 1)) begun front p s ∧
      s.follow rest = some t ∧ (p ≠ .ended → rest = []) := by
  obtain ⟨begun, hbegun, hrest⟩ := follow_cons_eq_some hfollow
  have hnow : start ≤ clock 1 := by
    rw [htime.read 0 start rfl]
    exact htime.mono (Nat.zero_le 1)
  obtain ⟨front, rest, p, s, rfl, hreached, hall⟩ :=
    Pause.Reached.exists_front (stands_of_pause hr hroom hbegun hnow) hrest htime.tail
  rw [follow_append, hreached.follow, Option.bind_some] at hrest
  exact ⟨begun, front, rest, p, s, hbegun, rfl, hreached, hrest, hall⟩

end Race

end Redial
