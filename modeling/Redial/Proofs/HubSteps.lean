import Mathlib.Tactic.Lemma
import Redial.Fanout.Hub

/-!
# The steps of a hub

What one turn makes of each worker, and what therefore holds along every schedule: a worker meets
all the events that are handed out while it is there, keeps one exactly if it has room, and what it
has accepted is what it has kept.
-/

namespace Redial.Fanout

/-- How a worker met one event. -/
structure Trial where
  event : Event
  /-- How many events were waiting for the worker then. -/
  waiting : Nat
  isKept : Bool
  deriving DecidableEq

/-- The events that were kept, in the order of the trials. -/
def Trial.kept (trials : List Trial) : List Event := (trials.filter (·.isKept)).map (·.event)

lemma Trial.kept_append (trials more : List Trial) :
    Trial.kept (trials ++ more) = Trial.kept trials ++ Trial.kept more := by
  simp [Trial.kept]

lemma Trial.kept_sublist (trials : List Trial) :
    (Trial.kept trials).Sublist (trials.map (·.event)) :=
  List.filter_sublist.map _

namespace Worker

variable {w after : Worker} {e : Event}

def trial (w : Worker) (e : Event) : Trial := ⟨e, w.queue.length, (w.offer e).isOk⟩

/-- The worker after it has met an event. -/
def meet (w : Worker) (e : Event) : Worker := (w.offer e).toOption.getD w

lemma accepted_meet (w : Worker) (e : Event) :
    (w.meet e).accepted = w.accepted ++ Trial.kept [w.trial e] := by
  unfold meet trial
  cases hoffer : w.offer e with
  | ok after =>
    simpa [Trial.kept, Except.toOption, Except.isOk, Except.toBool] using accepted_offer hoffer
  | error loss => simp [Trial.kept, Except.toOption, Except.isOk, Except.toBool]

/-- The worker after it has finished an event. -/
def done (w : Worker) (e : Event) : Worker :=
  { w with current := none, handled := w.handled ++ [e] }

lemma accepted_kill (h : w.isIdle = true) : w.kill.accepted = w.accepted := by
  obtain ⟨hqueue, hcurrent⟩ : w.queue = [] ∧ w.current = none := by simpa [isIdle] using h
  simp [accepted, kill, hqueue, hcurrent]

lemma subscriber_offer (h : w.offer e = .ok after) : after.subscriber = w.subscriber := by
  unfold offer at h
  split at h
  · cases h
  · split at h
    · cases h
      rfl
    · cases h

lemma subscriber_take (h : w.take = some after) : after.subscriber = w.subscriber := by
  unfold take at h
  split at h
  · cases h
    rfl
  · cases h

lemma subscriber_finish {reaction : Reaction} (h : w.finish = some (reaction, after)) :
    after.subscriber = w.subscriber := by
  obtain ⟨e, -, hafter⟩ := Option.map_eq_some_iff.1 h
  cases hafter
  rfl

/-- A worker that is there keeps an event exactly if there is room. -/
lemma isKept_trial (halive : w.isAlive = true) (e : Event) :
    (w.trial e).isKept = decide (w.queue.length < w.subscriber.room) := by
  unfold trial offer
  by_cases hroom : w.queue.length < w.subscriber.room <;>
    simp [halive, hroom, Except.isOk, Except.toBool]

lemma room_meet (hroom : w.queue.length ≤ w.subscriber.room) (e : Event) :
    (w.meet e).queue.length ≤ (w.meet e).subscriber.room := by
  unfold meet offer
  cases w.isAlive
  case false => exact hroom
  case true =>
    by_cases hlt : w.queue.length < w.subscriber.room
    · simpa [hlt, Except.toOption] using Nat.succ_le_of_lt hlt
    · simp [hlt, Except.toOption, hroom]

lemma room_take (hroom : w.queue.length ≤ w.subscriber.room) (h : w.take = some after) :
    after.queue.length ≤ after.subscriber.room := by
  unfold take at h
  split at h
  case h_1 e rest hqueue =>
    cases h
    rw [hqueue, List.length_cons] at hroom
    exact Nat.le_of_succ_le hroom
  case h_2 => cases h

lemma isAlive_take (h : w.take = some after) : w.isAlive = true ∧ after.isAlive = true := by
  unfold take at h
  split at h
  case h_1 halive _ _ =>
    cases h
    exact ⟨halive, halive⟩
  case h_2 => cases h

lemma isAlive_meet (w : Worker) (e : Event) : (w.meet e).isAlive = w.isAlive := by
  unfold meet offer
  cases halive : w.isAlive
  case false => exact halive
  case true =>
    by_cases hlt : w.queue.length < w.subscriber.room <;> simp [hlt, halive, Except.toOption]

lemma meet_of_gone (h : w.isAlive = false) (e : Event) : w.meet e = w := by
  simp [meet, offer, h, Except.toOption]

end Worker

namespace Hub

variable {α : Type} {h : Hub} {w : Worker} {i : Nat} {e : Event}

/-- What `f` notes along a schedule, at every turn before it is made. -/
def notes (f : Hub → Turn → Option α) : Hub → List Turn → List α
  | _, [] => []
  | h, turn :: turns => (f h turn).toList ++ ((h.step turn).getD h).notes f turns

/-- The event that a turn hands to the workers. -/
def handed (h : Hub) : Turn → Option Event
  | .emit e => if h.isShut || h.feed.isSome then none else some e
  | .relay => h.feed.bind fun feed =>
    match feed.read 0 with
    | (.item e, _) => some e
    | _ => none
  | _ => none

/-- All the events that the workers meet along a schedule. -/
def emitted (h : Hub) (turns : List Turn) : List Event := h.notes handed turns

/-- How worker `i` meets the event of a turn. -/
def trial (i : Nat) (h : Hub) (turn : Turn) : Option Trial :=
  (h.handed turn).bind fun e => h.workers[i]?.map (·.trial e)

def trials (i : Nat) (h : Hub) (turns : List Turn) : List Trial := h.notes (trial i) turns

/-- What a turn makes of worker `i`. -/
def renew (h : Hub) (i : Nat) (turn : Turn) (w : Worker) : Worker :=
  match turn with
  | .take j => if j = i then w.take.getD w else w
  | .finish j => if j = i then (w.finish.map Prod.snd).getD w else w
  | .retire j => if j = i ∧ h.isShut = true ∧ w.isIdle = true then w.kill else w
  | turn => (h.handed turn).elim w w.meet

lemma follow_cons (h : Hub) (turn : Turn) (turns : List Turn) :
    h.follow (turn :: turns) = ((h.step turn).getD h).follow turns := rfl

lemma follow_append (h : Hub) (turns more : List Turn) :
    h.follow (turns ++ more) = (h.follow turns).follow more :=
  List.foldl_append

lemma workers_emit (h : Hub) (e : Event) : (h.emit e).workers = h.workers.map (·.meet e) := by
  simp [emit, Worker.meet]

lemma getElem?_update (h : Hub) (i j : Nat) (w : Worker) :
    (h.update j w).workers[i]? = if j = i then h.workers[i]?.map fun _ => w else h.workers[i]? := by
  simp only [update, List.getElem?_set']
  by_cases hj : j = i
  · simp only [if_pos hj]
    cases h.workers[i]? <;> rfl
  · simp only [if_neg hj]

lemma workers_record (h : Hub) (name : String) (reaction : Reaction) :
    (h.record name reaction).workers = h.workers := by
  cases reaction <;> rfl

/-- A turn renews every worker by itself. -/
theorem getElem?_step (h : Hub) (turn : Turn) (i : Nat) :
    ((h.step turn).getD h).workers[i]? = h.workers[i]?.map (h.renew i turn) := by
  cases turn with
  | emit e =>
    unfold step renew handed
    cases h.isShut || h.feed.isSome <;> simp [workers_emit]
  | send e =>
    have hrest : h.renew i (.send e) = id := rfl
    simp only [step, hrest, Option.map_id_fun, id]
    split <;> rfl
  | join s =>
    have hrest : h.renew i (.join s) = id := rfl
    simp only [step, hrest, Option.map_id_fun, id]
    split <;> rfl
  | leave s =>
    have hrest : h.renew i (.leave s) = id := rfl
    simp only [step, hrest, Option.map_id_fun, id]
    split <;> rfl
  | shut =>
    have hrest : h.renew i .shut = id := rfl
    simp only [step, hrest, Option.map_id_fun, id]
    split <;> rfl
  | relay =>
    unfold step relay renew handed
    cases hfeed : h.feed with
    | none => simp
    | some feed =>
      rcases hread : feed.read 0 with ⟨reading, after⟩
      cases reading <;> simp [hread, workers_emit]
  | take j =>
    unfold step renew
    cases hw : h.workers[j]? with
    | none => by_cases hj : j = i <;> simp_all
    | some w =>
      by_cases hj : j = i
      · subst hj
        cases htake : w.take <;> simp [hw, htake, getElem?_update]
      · cases htake : w.take <;> simp [hw, hj, htake, getElem?_update]
  | finish j =>
    unfold step renew
    cases hw : h.workers[j]? with
    | none => by_cases hj : j = i <;> simp_all
    | some w =>
      by_cases hj : j = i
      · subst hj
        cases hfinish : w.finish <;> simp [hw, hfinish, workers_record, getElem?_update]
      · cases hfinish : w.finish <;> simp [hw, hj, hfinish, workers_record, getElem?_update]
  | retire j =>
    unfold step renew
    cases hw : h.workers[j]? with
    | none => by_cases hj : j = i <;> simp_all
    | some w =>
      by_cases hj : j = i
      · subst hj
        by_cases hidle : h.isShut = true ∧ w.isIdle = true <;> simp [hw, hidle, getElem?_update]
      · by_cases hidle : h.isShut = true ∧ w.isIdle = true <;> simp [hw, hj, hidle, getElem?_update]

/-- What a turn that hands out an event, or none, can make of a worker. -/
inductive Renewal (h : Hub) (w : Worker) : Option Event → Worker → Prop where
  | rest : h.Renewal w none w
  | meet (e : Event) : h.Renewal w (some e) (w.meet e)
  | take {v : Worker} (htake : w.take = some v) : h.Renewal w none v
  | finish {v : Worker} {reaction : Reaction} (hfinish : w.finish = some (reaction, v)) :
      h.Renewal w none v
  | retire (hshut : h.isShut = true) (hidle : w.isIdle = true) : h.Renewal w none w.kill

theorem renewal_renew (h : Hub) (i : Nat) (turn : Turn) (w : Worker) :
    h.Renewal w (h.handed turn) (h.renew i turn w) := by
  have hmeet (answer : Option Event) : h.Renewal w answer (answer.elim w w.meet) := by
    cases answer with
    | none => exact .rest
    | some e => exact .meet e
  cases turn with
  | take j =>
    by_cases hj : j = i
    · cases htake : w.take with
      | none => simpa [renew, handed, hj, htake] using Renewal.rest
      | some v => simpa [renew, handed, hj, htake] using Renewal.take htake
    · simpa [renew, handed, hj] using Renewal.rest
  | finish j =>
    by_cases hj : j = i
    · cases hfinish : w.finish with
      | none => simpa [renew, handed, hj, hfinish] using Renewal.rest
      | some answer => simpa [renew, handed, hj, hfinish] using Renewal.finish hfinish
    · simpa [renew, handed, hj] using Renewal.rest
  | retire j =>
    by_cases hgo : j = i ∧ h.isShut = true ∧ w.isIdle = true
    · rw [renew, if_pos hgo]
      exact .retire hgo.2.1 hgo.2.2
    · rw [renew, if_neg hgo]
      exact .rest
  | emit | relay | send | join | leave | shut => exact hmeet _

namespace Renewal

variable {v : Worker} {answer : Option Event}

lemma subscriber_eq (hnew : h.Renewal w answer v) : v.subscriber = w.subscriber := by
  cases hnew with
  | rest | retire => rfl
  | meet e =>
    unfold Worker.meet
    cases hoffer : w.offer e with
    | error loss => rfl
    | ok after => exact Worker.subscriber_offer hoffer
  | take htake => exact Worker.subscriber_take htake
  | finish hfinish => exact Worker.subscriber_finish hfinish

/-- A worker accepts what it keeps of the event that it meets, and loses nothing. -/
lemma accepted_eq (hnew : h.Renewal w answer v) :
    v.accepted = w.accepted ++ Trial.kept (answer.map w.trial).toList := by
  have hnothing : w.accepted ++ Trial.kept [] = w.accepted := List.append_nil _
  cases hnew with
  | rest => exact hnothing.symm
  | meet e => exact w.accepted_meet e
  | take htake => exact (Worker.accepted_take htake).trans hnothing.symm
  | finish hfinish => exact (Worker.accepted_finish hfinish).trans hnothing.symm
  | retire hshut hidle => exact (Worker.accepted_kill hidle).trans hnothing.symm

end Renewal

/-! ### What a worker has accepted -/

lemma trials_cons (turn : Turn) (turns : List Turn) (hw : h.workers[i]? = some w) :
    h.trials i (turn :: turns) =
      ((h.handed turn).map w.trial).toList ++ ((h.step turn).getD h).trials i turns := by
  simp only [trials, notes, trial, hw, Option.map_some]
  cases h.handed turn <;> rfl

lemma emitted_cons (h : Hub) (turn : Turn) (turns : List Turn) :
    h.emitted (turn :: turns) = (h.handed turn).toList ++ ((h.step turn).getD h).emitted turns :=
  rfl

lemma getElem?_step_of_some (turn : Turn) (hw : h.workers[i]? = some w) :
    ((h.step turn).getD h).workers[i]? = some (h.renew i turn w) := by
  rw [getElem?_step, hw, Option.map_some]

/-- What a worker has accepted in the end is what it had accepted and what it has kept since. -/
theorem accepted_follow (turns : List Turn) (hw : h.workers[i]? = some w) :
    ∃ v, (h.follow turns).workers[i]? = some v ∧ v.subscriber = w.subscriber ∧
      v.accepted = w.accepted ++ Trial.kept (h.trials i turns) := by
  induction turns generalizing h w with
  | nil => exact ⟨w, hw, rfl, (List.append_nil _).symm⟩
  | cons turn turns ih =>
    have hnew := h.renewal_renew i turn w
    obtain ⟨v, hv, hsubscriber, haccepted⟩ := ih (getElem?_step_of_some turn hw)
    refine ⟨v, hv, hsubscriber.trans hnew.subscriber_eq, ?_⟩
    rw [haccepted, hnew.accepted_eq, trials_cons turn turns hw, Trial.kept_append,
      List.append_assoc]

/-- Every worker meets all the events that are handed out, in their order. -/
theorem map_event_trials (turns : List Turn) (hw : h.workers[i]? = some w) :
    (h.trials i turns).map (·.event) = h.emitted turns := by
  induction turns generalizing h w with
  | nil => rfl
  | cons turn turns ih =>
    rw [trials_cons turn turns hw, emitted_cons, List.map_append,
      ih (getElem?_step_of_some turn hw)]
    cases h.handed turn <;> rfl

/-! ### Room and presence -/

/-- No worker holds more than there is room for, none has left before the last event or with
something to do, and a hub that is lent out is not shut. -/
structure Sound (h : Hub) : Prop where
  lent : h.isShut = true → h.feed = none
  room : ∀ {i : Nat} {w : Worker}, h.workers[i]? = some w →
    w.queue.length ≤ w.subscriber.room
  staffed : ∀ {i : Nat} {w : Worker}, h.workers[i]? = some w → w.isAlive = false →
    h.isShut = true ∧ w.isIdle = true

lemma sound_ofSubscribers (subscribers : List Subscriber) : (ofSubscribers subscribers).Sound where
  lent := fun _ => rfl
  room {i w} hw := by
    obtain ⟨s, -, rfl⟩ : ∃ s, subscribers[i]? = some s ∧ { subscriber := s } = w := by
      simpa [ofSubscribers] using hw
    exact Nat.zero_le _
  staffed {i w} hw hdead := by
    obtain ⟨s, -, rfl⟩ : ∃ s, subscribers[i]? = some s ∧ { subscriber := s } = w := by
      simpa [ofSubscribers] using hw
    cases hdead

lemma isShut_record (h : Hub) (name : String) (reaction : Reaction) :
    (h.record name reaction).isShut = h.isShut := by
  cases reaction <;> rfl

lemma feed_record (h : Hub) (name : String) (reaction : Reaction) :
    (h.record name reaction).feed = h.feed := by
  cases reaction <;> rfl

def Turn.shuts : Turn → Bool
  | .shut => true
  | _ => false

/-- A hub is shut by its owner alone, who needs to have it back for that, and remains shut. -/
lemma isShut_step (h : Hub) (turn : Turn) :
    ((h.step turn).getD h).isShut = (h.isShut || (turn.shuts && h.feed.isNone)) := by
  cases turn with
  | emit | send | join | leave =>
    simp only [step, Turn.shuts, Bool.false_and, Bool.or_false]
    split <;> rfl
  | relay =>
    simp only [step, relay, Turn.shuts, Bool.false_and, Bool.or_false]
    cases h.feed with
    | none => rfl
    | some feed =>
      rcases hread : feed.read 0 with ⟨reading, after⟩
      cases reading <;> simp [hread, emit]
  | take j =>
    simp only [step, Turn.shuts, Bool.false_and, Bool.or_false]
    cases h.workers[j]?.bind Worker.take <;> rfl
  | finish j =>
    simp only [step, Turn.shuts, Bool.false_and, Bool.or_false]
    cases h.workers[j]? with
    | none => rfl
    | some w => cases hfinish : w.finish <;> simp [hfinish, isShut_record, update]
  | shut =>
    simp only [step, Turn.shuts, Bool.true_and]
    cases h.feed <;> simp [shut]
  | retire j =>
    simp only [step, Turn.shuts, Bool.false_and, Bool.or_false]
    cases h.workers[j]? with
    | none => rfl
    | some w => cases hgo : h.isShut && w.isIdle <;> simp [hgo, update]

/-- A hub that does not listen does not begin to. -/
lemma feed_step (turn : Turn) (hfeed : h.feed = none) : ((h.step turn).getD h).feed = none := by
  cases turn with
  | emit | send | join | leave | shut =>
    simp only [step]
    split <;> simp [hfeed, emit, shut, send]
  | relay => simp [step, relay, hfeed]
  | take j =>
    simp only [step]
    cases h.workers[j]?.bind Worker.take <;> exact hfeed
  | finish j =>
    simp only [step]
    cases h.workers[j]? with
    | none => exact hfeed
    | some w => cases hfinish : w.finish <;> simp [hfinish, feed_record, update, hfeed]
  | retire j =>
    simp only [step]
    cases h.workers[j]? with
    | none => exact hfeed
    | some w => cases hgo : h.isShut && w.isIdle <;> simp [hgo, update, hfeed]

lemma feed_follow (turns : List Turn) (hfeed : h.feed = none) : (h.follow turns).feed = none := by
  induction turns generalizing h with
  | nil => exact hfeed
  | cons turn turns ih => exact ih (feed_step turn hfeed)

/-- Events come while the hub is open. -/
lemma isShut_of_handed {turn : Turn} (hs : h.Sound) (he : h.handed turn = some e) :
    h.isShut = false := by
  cases hshut : h.isShut with
  | false => rfl
  | true =>
    cases turn with
    | emit e => simp [handed, hshut] at he
    | relay => simp [handed, hs.lent hshut] at he
    | send | join | leave | take | finish | shut | retire => cases he

lemma Renewal.room_le {v : Worker} {answer : Option Event} (hnew : h.Renewal w answer v)
    (hroom : w.queue.length ≤ w.subscriber.room) : v.queue.length ≤ v.subscriber.room := by
  cases hnew with
  | rest => exact hroom
  | meet e => exact Worker.room_meet hroom e
  | take htake => exact Worker.room_take hroom htake
  | finish hfinish =>
    obtain ⟨e, -, hv⟩ := Option.map_eq_some_iff.1 hfinish
    cases hv
    exact hroom
  | retire => exact Nat.zero_le _

/-- A worker is gone only after it has left by itself, and then does nothing any more. -/
lemma Renewal.staffed {v : Worker} {answer : Option Event} (hnew : h.Renewal w answer v)
    (hw : w.isAlive = false → h.isShut = true ∧ w.isIdle = true) (hv : v.isAlive = false) :
    h.isShut = true ∧ v.isIdle = true := by
  cases hnew with
  | rest => exact hw hv
  | meet e =>
    have hdead := (Worker.isAlive_meet w e).symm.trans hv
    rw [Worker.meet_of_gone hdead]
    exact hw hdead
  | take htake =>
    have halive := (Worker.isAlive_take htake).2
    rw [hv] at halive
    cases halive
  | finish hfinish =>
    obtain ⟨e, hcurrent, hv'⟩ := Option.map_eq_some_iff.1 hfinish
    cases hv'
    have hidle := (hw hv).2
    simp [Worker.isIdle, hcurrent] at hidle
  | retire hshut hidle => exact ⟨hshut, rfl⟩

namespace Sound

lemma step (hs : h.Sound) (turn : Turn) : ((h.step turn).getD h).Sound where
  lent hshut := by
    rw [isShut_step, Bool.or_eq_true, Bool.and_eq_true, Option.isNone_iff_eq_none] at hshut
    rcases hshut with hshut | ⟨-, hfeed⟩
    · exact feed_step turn (hs.lent hshut)
    · exact feed_step turn hfeed
  room {i v} hv := by
    rw [getElem?_step, Option.map_eq_some_iff] at hv
    obtain ⟨w, hw, rfl⟩ := hv
    exact (h.renewal_renew i turn w).room_le (hs.room hw)
  staffed {i v} hv hdead := by
    rw [getElem?_step, Option.map_eq_some_iff] at hv
    obtain ⟨w, hw, rfl⟩ := hv
    obtain ⟨hshut, hidle⟩ := (h.renewal_renew i turn w).staffed (hs.staffed hw) hdead
    rw [isShut_step, hshut]
    exact ⟨rfl, hidle⟩

lemma follow (hs : h.Sound) (turns : List Turn) : (h.follow turns).Sound := by
  induction turns generalizing h with
  | nil => exact hs
  | cons turn turns ih => exact ih (hs.step turn)

/-- A worker that an event reaches is there. -/
lemma isAlive_of_handed {turn : Turn} (hs : h.Sound) (he : h.handed turn = some e)
    (hw : h.workers[i]? = some w) : w.isAlive = true := by
  cases halive : w.isAlive with
  | true => rfl
  | false =>
    have hshut := (hs.staffed hw halive).1
    rw [isShut_of_handed hs he] at hshut
    cases hshut

/-- An event is lost exactly if it meets a full queue. -/
theorem trials_spec (hs : h.Sound) (turns : List Turn) (hw : h.workers[i]? = some w) :
    ∀ t ∈ h.trials i turns, t.waiting ≤ w.subscriber.room ∧
      (t.isKept = false ↔ t.waiting = w.subscriber.room) := by
  induction turns generalizing h w with
  | nil => simp [trials, notes]
  | cons turn turns ih =>
    intro t ht
    rw [trials_cons turn turns hw, List.mem_append] at ht
    rcases ht with ht | ht
    · obtain ⟨e, he, rfl⟩ : ∃ e, h.handed turn = some e ∧ w.trial e = t := by simpa using ht
      have halive := hs.isAlive_of_handed he hw
      have hroom := hs.room hw
      refine ⟨hroom, ?_⟩
      rw [Worker.isKept_trial halive, decide_eq_false_iff_not, Nat.not_lt]
      exact ⟨fun hfull => Nat.le_antisymm hroom hfull, fun hfull => Nat.le_of_eq hfull.symm⟩
    · have hrest := ih (hs.step turn) (getElem?_step_of_some turn hw) t ht
      rw [(h.renewal_renew i turn w).subscriber_eq] at hrest
      exact hrest

end Sound

end Hub

end Redial.Fanout
