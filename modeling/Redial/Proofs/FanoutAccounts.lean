import Mathlib.Algebra.GroupWithZero.Nat
import Redial.Proofs.HubSteps

/-!
# What a hub hands to its workers

What a worker has kept is what it has handled, what it has at work and what waits for it, in the
order in which it was emitted. A worker in a hub lives as it would in a hub of its own: the turns of
the others, and how they or it react, make no difference.
-/

namespace Redial.Fanout

namespace Worker

variable {w v : Worker}

/-- The turns that the worker still has to make before it is gone, if nothing new comes. -/
def turnsLeft (w : Worker) : Nat :=
  2 * w.queue.length + w.current.toList.length + w.isAlive.toNat

/-- The same has come to two workers, and they are equally far with it. Their subscribers may be
different ones, if only as much may wait for both. -/
structure Resembles (w v : Worker) : Prop where
  room : w.subscriber.room = v.subscriber.room
  queue : w.queue = v.queue
  current : w.current = v.current
  handled : w.handled = v.handled

namespace Resembles

lemma symm (h : w.Resembles v) : v.Resembles w :=
  ⟨h.room.symm, h.queue.symm, h.current.symm, h.handled.symm⟩

lemma trans {u : Worker} (h : w.Resembles v) (h' : v.Resembles u) : w.Resembles u :=
  ⟨h.room.trans h'.room, h.queue.trans h'.queue, h.current.trans h'.current,
    h.handled.trans h'.handled⟩

section

variable (h : w.Resembles v) (hw : w.isAlive = true) (hv : v.isAlive = true)
include h hw hv

lemma trial_eq (e : Event) : w.trial e = v.trial e := by
  unfold trial offer
  rw [h.room, h.queue, hw, hv]
  by_cases hroom : v.queue.length < v.subscriber.room <;>
    simp [hroom, Except.isOk, Except.toBool]

lemma meet (e : Event) : (w.meet e).Resembles (v.meet e) := by
  unfold Worker.meet offer
  rw [h.room, h.queue, hw, hv]
  by_cases hroom : v.queue.length < v.subscriber.room
  · simpa [hroom, Except.toOption] using ⟨h.room, rfl, h.current, h.handled⟩
  · simpa [hroom, Except.toOption] using h

end

lemma take (h : w.Resembles v) (hw : w.isAlive = true) (hv : v.isAlive = false → v.isIdle = true) :
    (w.take.getD w).Resembles (v.take.getD v) := by
  unfold Worker.take
  rw [hw, h.queue, h.current]
  cases halive : v.isAlive with
  | true =>
    split
    case h_1 => exact ⟨h.room, rfl, rfl, h.handled⟩
    case h_2 => exact h
  | false =>
    obtain ⟨hqueue, hcurrent⟩ : v.queue = [] ∧ v.current = none := by
      simpa [isIdle] using hv halive
    rw [hqueue, hcurrent]
    exact h

lemma finish (h : w.Resembles v) :
    ((w.finish.map Prod.snd).getD w).Resembles ((v.finish.map Prod.snd).getD v) := by
  unfold Worker.finish
  rw [h.current]
  cases hcurrent : v.current with
  | none => exact h
  | some e => exact ⟨h.room, h.queue, rfl, by simp [h.handled]⟩

lemma kill (h : w.Resembles v) (hidle : v.isIdle = true) : w.Resembles v.kill := by
  obtain ⟨hqueue, hcurrent⟩ : v.queue = [] ∧ v.current = none := by simpa [isIdle] using hidle
  exact ⟨h.room, h.queue.trans hqueue, h.current.trans hcurrent, h.handled⟩

end Resembles

end Worker

namespace Hub

variable {h k : Hub} {w v : Worker} {i : Nat} {e : Event} {turn : Turn}

/-! ### A worker by itself -/

/-- What worker `i` sees of a turn, as if there was no other worker: an event that comes, or a turn
of its own. -/
def own (i : Nat) (h : Hub) : Turn → Option Turn
  | .take j => if j = i then some (.take 0) else none
  | .finish j => if j = i then some (.finish 0) else none
  | turn => (h.handed turn).map .emit

/-- All that worker `i` sees of a schedule. -/
def view (i : Nat) (h : Hub) (turns : List Turn) : List Turn := h.notes (own i) turns

/-- In hub `k` the first worker, whose owner goes on, is as far as worker `i` of `h`. -/
structure Isolates (k h : Hub) (i : Nat) : Prop where
  feed : k.feed = none
  isShut : k.isShut = false
  workers : ∃ w v, h.workers[i]? = some w ∧ k.workers[0]? = some v ∧ v.isAlive = true ∧
    v.Resembles w

/-- While a hub is open nobody leaves. -/
lemma Renewal.isAlive_eq {answer : Option Event} (hnew : h.Renewal w answer v)
    (hopen : h.isShut = false) : v.isAlive = w.isAlive := by
  cases hnew with
  | rest => rfl
  | meet e => exact w.isAlive_meet e
  | take htake =>
    obtain ⟨hw, hv⟩ := Worker.isAlive_take htake
    rw [hw, hv]
  | finish hfinish =>
    obtain ⟨e, -, hv⟩ := Option.map_eq_some_iff.1 hfinish
    cases hv
    rfl
  | retire hshut =>
    rw [hopen] at hshut
    cases hshut

/-- A turn of which the worker sees nothing brings no event and leaves it where it is. -/
lemma resembles_renew_of_none (hsame : v.Resembles w) (hown : own i h turn = none) :
    h.handed turn = none ∧ v.Resembles (h.renew i turn w) := by
  have hnothing {answer : Option Event} (hnone : answer.map Turn.emit = none) :
      answer = none ∧ v.Resembles (answer.elim w w.meet) := by
    rw [Option.map_eq_none_iff] at hnone
    subst hnone
    exact ⟨rfl, hsame⟩
  cases turn with
  | take j | finish j =>
    have hj : ¬ j = i := by simpa [own] using hown
    simpa [handed, renew, hj] using hsame
  | retire j =>
    refine ⟨rfl, ?_⟩
    by_cases hgo : j = i ∧ h.isShut = true ∧ w.isIdle = true
    · simpa only [renew, if_pos hgo] using hsame.kill hgo.2.2
    · simpa only [renew, if_neg hgo] using hsame
  | emit | relay | send | join | leave | shut => exact hnothing hown

/-- The worker does the same with what it sees of a turn in a hub of its own. -/
lemma resembles_renew_of_some {o : Turn} (hs : h.Sound) (hw : h.workers[i]? = some w)
    (halive : v.isAlive = true) (hsame : v.Resembles w) (hfeed : k.feed = none)
    (hopen : k.isShut = false) (hown : own i h turn = some o) :
    o.shuts = false ∧ k.handed o = h.handed turn ∧
      (k.renew 0 o v).Resembles (h.renew i turn w) := by
  have hevent (hmap : (h.handed turn).map .emit = some o) :
      o.shuts = false ∧ k.handed o = h.handed turn ∧
        (k.renew 0 o v).Resembles ((h.handed turn).elim w w.meet) := by
    obtain ⟨e, he, rfl⟩ := Option.map_eq_some_iff.1 hmap
    have hk : k.handed (.emit e) = some e := by simp [handed, hfeed, hopen]
    have hrenew : k.renew 0 (.emit e) v = v.meet e := by simp [renew, hk]
    rw [hrenew, hk, he]
    exact ⟨rfl, rfl, hsame.meet halive (hs.isAlive_of_handed he hw) e⟩
  cases turn with
  | take j =>
    obtain ⟨rfl, rfl⟩ : j = i ∧ _ = o := by simpa [own] using hown
    refine ⟨rfl, rfl, ?_⟩
    simpa only [renew, if_true] using hsame.take halive fun hdead => (hs.staffed hw hdead).2
  | finish j =>
    obtain ⟨rfl, rfl⟩ : j = i ∧ _ = o := by simpa [own] using hown
    refine ⟨rfl, rfl, ?_⟩
    simpa only [renew, if_true] using hsame.finish
  | retire j => cases hown
  | emit | relay | send | join | leave | shut => exact hevent hown

/-- A worker lives as it would alone, and meets the same events in the same way. -/
theorem Isolates.follow (hs : h.Sound) (hi : k.Isolates h i) (turns : List Turn) :
    (k.follow (h.view i turns)).Isolates (h.follow turns) i ∧
      k.trials 0 (h.view i turns) = h.trials i turns := by
  induction turns generalizing h k with
  | nil => exact ⟨hi, rfl⟩
  | cons turn turns ih =>
    obtain ⟨w, v, hw, hv, halive, hsame⟩ := hi.workers
    have hview : h.view i (turn :: turns) =
        (own i h turn).toList ++ ((h.step turn).getD h).view i turns := rfl
    rw [trials_cons turn turns hw, follow_cons, hview]
    cases hown : own i h turn with
    | none =>
      obtain ⟨hnone, hrenew⟩ := resembles_renew_of_none hsame hown
      have hnext : k.Isolates ((h.step turn).getD h) i :=
        ⟨hi.feed, hi.isShut, _, v, getElem?_step_of_some turn hw, hv, halive, hrenew⟩
      rw [hnone]
      exact ih (hs.step turn) hnext
    | some o =>
      obtain ⟨hshuts, hhanded, hrenew⟩ :=
        resembles_renew_of_some hs hw halive hsame hi.feed hi.isShut hown
      have hnext : ((k.step o).getD k).Isolates ((h.step turn).getD h) i := by
        refine ⟨feed_step o hi.feed, ?_, _, _, getElem?_step_of_some turn hw,
          getElem?_step_of_some o hv, ?_, hrenew⟩
        · rw [isShut_step, hi.isShut, hshuts]
          rfl
        · exact ((k.renewal_renew 0 o v).isAlive_eq hi.isShut).trans halive
      obtain ⟨hafter, htrials⟩ := ih (hs.step turn) hnext
      rw [Option.toList_some, List.singleton_append, follow_cons, trials_cons o _ hv, htrials,
        hhanded]
      refine ⟨hafter, congrArg (· ++ _) ?_⟩
      cases he : h.handed turn with
      | none => rfl
      | some e =>
        have hevent := hsame.trial_eq halive (hs.isAlive_of_handed he hw) e
        simp only [Option.map_some, Option.toList_some, hevent]

/-! ### The end -/

/-- The turns that the workers still have to make before they are gone, with nothing new. -/
def workLeft (h : Hub) : Nat := (h.workers.map Worker.turnsLeft).sum

lemma workLeft_update {before after : List Worker} (hsplit : h.workers = before ++ w :: after)
    (hless : v.turnsLeft < w.turnsLeft) : (h.update before.length v).workLeft < h.workLeft := by
  simp only [workLeft, update, hsplit, List.set_append_right _ _ (Nat.le_refl _), Nat.sub_self,
    List.set_cons_zero, List.map_append, List.map_cons, List.sum_append, List.sum_cons]
  omega

lemma workLeft_record (h : Hub) (name : String) (reaction : Reaction) :
    (h.record name reaction).workLeft = h.workLeft := by
  rw [workLeft, workers_record, workLeft]

/-- However the subscriber reacts, its worker is done with the event. -/
lemma step_finish (hw : h.workers[i]? = some w) (hcurrent : w.current = some e) :
    h.step (.finish i) = some ((h.update i (w.done e)).record w.subscriber.name
      (w.subscriber.react (w.handled.length + 1) e)) := by
  simp [step, hw, Worker.finish, hcurrent, Worker.done]

lemma step_take {queue : List Event} (hw : h.workers[i]? = some w) (halive : w.isAlive = true)
    (hcurrent : w.current = none) (hqueue : w.queue = e :: queue) :
    h.step (.take i) = some (h.update i { w with current := some e, queue }) := by
  simp [step, hw, Worker.take, halive, hcurrent, hqueue]

lemma step_retire (hw : h.workers[i]? = some w) (hshut : h.isShut = true)
    (hidle : w.isIdle = true) : h.step (.retire i) = some (h.update i w.kill) := by
  simp [step, hw, hshut, hidle]

/-- In a hub that is shut, a worker that is still there can make a turn. -/
lemma exists_step (hshut : h.isShut = true) (hw : w ∈ h.workers) (halive : w.isAlive = true) :
    ∃ turn after, h.step turn = some after ∧ after.workLeft < h.workLeft := by
  obtain ⟨before, rest, hsplit⟩ := List.append_of_mem hw
  have hat : h.workers[before.length]? = some w := by simp [hsplit]
  cases hcurrent : w.current with
  | some e =>
    have hless : (w.done e).turnsLeft < w.turnsLeft := by
      simp [Worker.turnsLeft, Worker.done, hcurrent]
    refine ⟨_, _, step_finish hat hcurrent, ?_⟩
    rw [workLeft_record]
    exact workLeft_update hsplit hless
  | none =>
    cases hqueue : w.queue with
    | cons e queue =>
      have hless : { w with current := some e, queue : Worker }.turnsLeft < w.turnsLeft := by
        simp only [Worker.turnsLeft, hcurrent, hqueue, List.length_cons, Option.toList_some,
          Option.toList_none, List.length_nil]
        omega
      exact ⟨_, _, step_take hat halive hcurrent hqueue, workLeft_update hsplit hless⟩
    | nil =>
      have hidle : w.isIdle = true := by simp [Worker.isIdle, hcurrent, hqueue]
      have hless : w.kill.turnsLeft < w.turnsLeft := by
        simp [Worker.turnsLeft, Worker.kill, halive]
      exact ⟨_, _, step_retire hat hshut hidle, workLeft_update hsplit hless⟩

/-- When its owner has shut a hub, the workers can always bring it to its end. -/
theorem exists_isOver (hshut : h.isShut = true) : ∃ turns, (h.follow turns).isOver = true := by
  induction hn : h.workLeft using Nat.strongRecOn generalizing h with
  | ind n ih =>
    cases hover : h.isOver with
    | true => exact ⟨[], hover⟩
    | false =>
      obtain ⟨w, hw, halive⟩ : ∃ w ∈ h.workers, w.isAlive = true := by
        simpa [isOver, hshut] using hover
      obtain ⟨turn, after, hstep, hless⟩ := exists_step hshut hw halive
      have hafter : after.isShut = true := by
        simpa [hstep, hshut] using h.isShut_step turn
      obtain ⟨turns, hturns⟩ := ih _ (hn ▸ hless) hafter rfl
      exact ⟨turn :: turns, by rwa [follow_cons, hstep, Option.getD_some]⟩

/-- A hub that does not listen, its owner can bring to its end. -/
lemma exists_isOver_of_shut (hfeed : h.feed = none) :
    ∃ turns, (h.follow (.shut :: turns)).isOver = true := by
  have hshut : ((h.step .shut).getD h).isShut = true := by
    rw [isShut_step, hfeed]
    exact Bool.or_true _
  exact exists_isOver hshut

lemma Sound.handled_of_isOver (hs : h.Sound) (hover : h.isOver = true)
    (hw : h.workers[i]? = some w) :
    w.queue = [] ∧ w.current = none ∧ w.handled = w.accepted := by
  have hgone : w.isAlive = false := by
    simp only [isOver, Bool.and_eq_true, List.all_eq_true, Bool.not_eq_true'] at hover
    exact hover.2 w (List.mem_of_getElem? hw)
  obtain ⟨hqueue, hcurrent⟩ : w.queue = [] ∧ w.current = none := by
    simpa [Worker.isIdle] using (hs.staffed hw hgone).2
  exact ⟨hqueue, hcurrent, by simp [Worker.accepted, hqueue, hcurrent]⟩

/-- A worker that starts with nothing, as a subscriber's worker does. -/
structure Fresh (h : Hub) (i : Nat) (w : Worker) : Prop where
  here : h.workers[i]? = some w
  queue : w.queue = []
  current : w.current = none
  handled : w.handled = []

lemma fresh_ofSubscribers {subscribers : List Subscriber} {s : Subscriber}
    (hs : subscribers[i]? = some s) : (ofSubscribers subscribers).Fresh i { subscriber := s } :=
  ⟨by simp [ofSubscribers, hs], rfl, rfl, rfl⟩

lemma Fresh.isolates (hw : h.Fresh i w) {s : Subscriber} (hroom : s.room = w.subscriber.room) :
    (ofSubscribers [s]).Isolates h i where
  feed := rfl
  isShut := rfl
  workers := ⟨w, { subscriber := s }, hw.here, rfl, rfl, hroom, hw.queue.symm, hw.current.symm,
    hw.handled.symm⟩

/-- What comes to a worker and what it makes of it is settled by what it sees, whatever else there
is in its hub. -/
theorem resembles_follow_of_view {j : Nat} {turns turns' : List Turn} (hs : h.Sound)
    (hs' : k.Sound) (hw : h.Fresh i w) (hv : k.Fresh j v)
    (hroom : v.subscriber.room = w.subscriber.room) (hview : k.view j turns' = h.view i turns) :
    k.trials j turns' = h.trials i turns ∧
      ∃ w' v', (h.follow turns).workers[i]? = some w' ∧ (k.follow turns').workers[j]? = some v' ∧
        v'.Resembles w' := by
  obtain ⟨halone, htrials⟩ := (hw.isolates rfl).follow hs turns
  obtain ⟨halone', htrials'⟩ := (hv.isolates hroom.symm).follow hs' turns'
  rw [hview] at halone' htrials'
  obtain ⟨w', u, hw', hu, -, hsame⟩ := halone.workers
  obtain ⟨v', u', hv', hu', -, hsame'⟩ := halone'.workers
  obtain rfl : u = u' := Option.some_inj.1 (hu.symm.trans hu')
  exact ⟨htrials'.symm.trans htrials, w', v', hw', hv', hsame'.symm.trans hsame⟩

/-- After any reaction the worker can take the next event, and the others notice nothing. -/
lemma step_finish_take (hs : h.Sound) (hw : h.workers[i]? = some w)
    (hcurrent : w.current = some e) :
    ∃ after, h.step (.finish i) = some after ∧ after.workers[i]? = some (w.done e) ∧
      (∀ j, j ≠ i → after.workers[j]? = h.workers[j]?) ∧
      (w.subscriber.react (w.handled.length + 1) e = .panics →
        after.complaints = h.complaints ++ [.panicked w.subscriber.name]) ∧
      ∀ next queue, w.queue = next :: queue → ∃ later, after.step (.take i) = some later ∧
        later.workers[i]? = some { w.done e with current := some next, queue } := by
  have halive : w.isAlive = true := by
    cases halive : w.isAlive with
    | true => rfl
    | false => simpa [Worker.isIdle, hcurrent] using (hs.staffed hw halive).2
  have hdone : ((h.update i (w.done e)).record w.subscriber.name
      (w.subscriber.react (w.handled.length + 1) e)).workers[i]? = some (w.done e) := by
    simp [workers_record, getElem?_update, hw]
  refine ⟨_, step_finish hw hcurrent, hdone, fun j hj => ?_, fun hpanics => ?_,
    fun next queue hqueue => ⟨_, step_take hdone halive rfl hqueue, ?_⟩⟩
  · rw [workers_record, getElem?_update, if_neg hj.symm]
  · rw [hpanics]
    rfl
  · rw [getElem?_update, if_pos rfl, hdone]
    rfl

/-- Whatever the subscribers, the schedule and the reactions, every worker takes the events that it
has kept out of its queue in the order in which they were emitted, and loses one exactly if as many
are waiting as may wait. A reaction that panics uses up its own event alone. What a worker gets
depends on nothing but the events and its own turns. When all workers have left after the last
event, which they always can, each of them has handled all that it has kept. -/
theorem fanout_is_accounted_and_isolated (subscribers : List Subscriber) (turns : List Turn)
    {i : Nat} {s : Subscriber} (hs : subscribers[i]? = some s) :
    let start := ofSubscribers subscribers
    let h := start.follow turns
    ∃ w, h.workers[i]? = some w ∧ w.subscriber = s ∧
      (start.trials i turns).map (·.event) = start.emitted turns ∧
      w.handled ++ w.current.toList ++ w.queue = Trial.kept (start.trials i turns) ∧
      w.queue.length ≤ max s.capacity 1 ∧
      (∀ t ∈ start.trials i turns, t.waiting ≤ max s.capacity 1 ∧
        (t.isKept = false ↔ t.waiting = max s.capacity 1)) ∧
      (∀ e, w.current = some e → ∃ after, h.step (.finish i) = some after ∧
        after.workers[i]? = some (w.done e) ∧
        (∀ j, j ≠ i → after.workers[j]? = h.workers[j]?) ∧
        (s.react (w.handled.length + 1) e = .panics →
          after.complaints = h.complaints ++ [.panicked s.name]) ∧
        ∀ next queue, w.queue = next :: queue → ∃ later, after.step (.take i) = some later ∧
          later.workers[i]? = some { w.done e with current := some next, queue }) ∧
      (∀ (others : List Subscriber) (turns' : List Turn) (j : Nat) (t : Subscriber),
        others[j]? = some t → t.room = s.room →
        (ofSubscribers others).view j turns' = start.view i turns →
        (ofSubscribers others).trials j turns' = start.trials i turns ∧
        ∃ v, ((ofSubscribers others).follow turns').workers[j]? = some v ∧
          v.handled = w.handled ∧ v.current = w.current ∧ v.queue = w.queue) ∧
      (h.isOver = true →
        w.queue = [] ∧ w.current = none ∧ w.handled = Trial.kept (start.trials i turns)) ∧
      ∃ rest, (h.follow (.shut :: rest)).isOver = true := by
  intro start h
  have hfresh := fresh_ofSubscribers hs
  have hsound := sound_ofSubscribers subscribers
  have hsound' := hsound.follow turns
  obtain ⟨w, hw, hsubscriber, haccepted⟩ := accepted_follow turns hfresh.here
  have hkept : w.accepted = Trial.kept (start.trials i turns) := haccepted
  refine ⟨w, hw, hsubscriber, map_event_trials turns hfresh.here, hkept, ?_,
    hsound.trials_spec turns hfresh.here, fun e he => ?_, fun others turns' j t ht hroom hview => ?_,
    fun hover => ?_, exists_isOver_of_shut (feed_follow turns rfl)⟩
  · have hroom := hsound'.room hw
    rwa [hsubscriber] at hroom
  · subst hsubscriber
    exact step_finish_take hsound' hw he
  · obtain ⟨htrials, w', v, hw', hv, hsame⟩ := resembles_follow_of_view hsound
      (sound_ofSubscribers others) hfresh (fresh_ofSubscribers ht) hroom hview
    obtain rfl : w = w' := Option.some_inj.1 (hw.symm.trans hw')
    exact ⟨htrials, v, hv, hsame.handled, hsame.current, hsame.queue⟩
  · obtain ⟨hqueue, hcurrent, hhandled⟩ := hsound'.handled_of_isOver hover hw
    exact ⟨hqueue, hcurrent, hhandled.trans hkept⟩

/-- A subscriber for which one event may wait, and whose first reaction panics, misses the second of
three events. -/
theorem fanout_beside_a_full_queue :
    let timid : Subscriber := ⟨"timid", 0, fun n _ => if n = 1 then .panics else .quiet⟩
    let event (n : Nat) : Event := { kind := .attemptStarting, seq := n }
    let start := ofSubscribers [timid, .logWriter]
    let turns : List Turn := [.emit (event 1), .emit (event 2), .take 0, .finish 0, .take 1,
      .emit (event 3), .take 0, .shut, .finish 0, .retire 0, .finish 1, .take 1, .finish 1, .take 1,
      .finish 1, .retire 1]
    [timid, .logWriter][0]? = some timid ∧ (start.follow turns).isOver = true ∧
      start.trials 0 turns = [⟨event 1, 0, true⟩, ⟨event 2, 1, false⟩, ⟨event 3, 0, true⟩] ∧
      ∃ w, (start.follow turns).workers[0]? = some w ∧ w.handled = [event 1, event 3] := by
  intro timid event start turns
  have hover : (start.follow turns).isOver = true := by decide +kernel
  have htrials : start.trials 0 turns =
      [⟨event 1, 0, true⟩, ⟨event 2, 1, false⟩, ⟨event 3, 0, true⟩] := by decide +kernel
  obtain ⟨w, hw, -, -, -, -, -, -, -, hend, -⟩ :=
    fanout_is_accounted_and_isolated [timid, .logWriter] turns (i := 0) (s := timid) rfl
  obtain ⟨-, -, hhandled⟩ := hend hover
  rw [htrials] at hhandled
  exact ⟨rfl, hover, htrials, w, hw, hhandled⟩

end Hub

end Redial.Fanout
