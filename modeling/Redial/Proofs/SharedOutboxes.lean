import Mathlib.Data.List.Nodup
import Mathlib.Data.List.Perm.Basic
import Redial.Delivery.Monitor
import Redial.Proofs.OutboxAccounts

/-!
# The account of a shared outbox

The steps that threads make under the lock, one after the other, are the requests that the outbox
serves. Each push carries the number of its thread, so the account tells whose values were accepted,
and in what order. A push that waits is a new request whenever its thread asks again.
-/

namespace Redial.Delivery

namespace Thread

variable {α : Type}

/-- It has not made a step yet. -/
def isFresh : Thread α → Bool
  | pushing .arriving _ | popping | closing => true
  | _ => false

/-- The value that the thread has taken out of the outbox. -/
def taken? : Thread α → Option α
  | popNotifies value => some value
  | popped answer => answer
  | _ => none

lemma taken?_eq_none_of_isFresh {thread : Thread α} (h : thread.isFresh = true) :
    thread.taken? = none := by
  cases thread with
  | pushing | popping | closing => rfl
  | pushed | popNotifies | popped | closeNotifies | closed => cases h

/-- It has closed the outbox. -/
def hasClosed : Thread α → Bool
  | closeNotifies | closed => true
  | _ => false

lemma hasClosed_of_isFresh {thread : Thread α} (h : thread.isFresh = true) :
    thread.hasClosed = false := by
  cases thread with
  | pushing | popping | closing => rfl
  | pushed | popNotifies | popped | closeNotifies | closed => cases h

lemma hasClosed_awaken (stage : Stage) (thread : Thread α) :
    (thread.awaken stage).hasClosed = thread.hasClosed := by
  unfold awaken
  split <;> rfl

@[simp] lemma taken?_awaken (stage : Stage) (thread : Thread α) :
    (thread.awaken stage).taken? = thread.taken? := by
  unfold awaken
  split <;> rfl

lemma exists_pushing_of_awaken {stage now : Stage} {thread : Thread α} {value : α}
    (h : thread.awaken stage = .pushing now value) :
    ∃ earlier, thread = .pushing earlier value := by
  unfold awaken at h
  split at h
  · cases h
    exact ⟨_, rfl⟩
  · exact ⟨now, h⟩

lemma awaken_eq_pushed {stage : Stage} {thread : Thread α} {answer : Except Refusal Unit} :
    thread.awaken stage = .pushed answer ↔ thread = .pushed answer := by
  unfold awaken
  split <;> simp

end Thread

namespace Monitor

variable {α : Type} {m : Monitor α}

/-- The state after a move, which stays as it is if the move is not possible. -/
def next (m : Monitor α) (move : Move) : Monitor α := (m.step move).getD m

/-- What a move asks the outbox for; each value comes with the number of its thread. -/
def request? (m : Monitor α) : Move → Option (Request (Nat × α))
  | .act i _ =>
    match m.threads[i]? with
    | some (.pushing .parked _) => none
    | some (.pushing _ value) => some (.push (i, value))
    | some .popping => some .pop
    | some .closing => some .close
    | _ => none
  | .rouse _ => none

/-- What the outbox is asked for on a schedule. -/
def requests (m : Monitor α) : List Move → List (Request (Nat × α))
  | [] => []
  | move :: rest => (m.request? move).toList ++ (m.next move).requests rest

/-- What a move does and asks for: one rule for each of the ways it can go. -/
inductive Moves (m : Monitor α) : Move → Option (Request (Nat × α)) → Monitor α → Prop where
  | accept {i target stage value after} (hthread : m.threads[i]? = some (.pushing stage value))
      (hawake : stage ≠ .parked) (hpush : m.box.push value = .accepted after) :
      m.Moves (.act i target) (some (.push (i, value)))
        ({ m with box := after }.update i (.pushed (.ok ())))
  | refuse {i target stage value reason} (hthread : m.threads[i]? = some (.pushing stage value))
      (hawake : stage ≠ .parked) (hpush : m.box.push value = .refused reason) :
      m.Moves (.act i target) (some (.push (i, value))) (m.update i (.pushed (.error reason)))
  | park {i target stage value} (hthread : m.threads[i]? = some (.pushing stage value))
      (hawake : stage ≠ .parked) (hpush : m.box.push value = .waits) :
      m.Moves (.act i target) (some (.push (i, value))) (m.update i (.pushing .parked value))
  | take {i target value rest} (hthread : m.threads[i]? = some .popping)
      (hqueue : m.box.queue = value :: rest) :
      m.Moves (.act i target) (some .pop)
        ({ m with box := { m.box with queue := rest } }.update i (.popNotifies value))
  | lack {i target} (hthread : m.threads[i]? = some .popping) (hqueue : m.box.queue = []) :
      m.Moves (.act i target) (some .pop) (m.update i (.popped none))
  | notify {i target taken value} (hthread : m.threads[i]? = some (.popNotifies taken))
      (hsleeper : m.threads[target]? = some (.pushing .parked value)) :
      m.Moves (.act i target) none
        ((m.update target (.pushing .notified value)).update i (.popped (some taken)))
  | notifyNobody {i target taken} (hthread : m.threads[i]? = some (.popNotifies taken))
      (hnobody : m.anyParked = false) :
      m.Moves (.act i target) none (m.update i (.popped (some taken)))
  | close {i target} (hthread : m.threads[i]? = some .closing) :
      m.Moves (.act i target) (some .close) ({ m with box := m.box.close }.update i .closeNotifies)
  | notifyAll {i target} (hthread : m.threads[i]? = some .closeNotifies) :
      m.Moves (.act i target) none (m.notifyAll.update i .closed)
  | rouse {i value} (hthread : m.threads[i]? = some (.pushing .parked value)) :
      m.Moves (.rouse i) none (m.update i (.pushing .roused value))
  | pass {move} : m.Moves move none m

lemma moves_ask {i target : Nat} {stage : Stage} {value : α}
    (hthread : m.threads[i]? = some (.pushing stage value)) (hawake : stage ≠ .parked) :
    m.Moves (.act i target) (some (.push (i, value))) (m.ask i value) := by
  unfold ask
  cases hpush : m.box.push value with
  | accepted after => exact .accept hthread hawake hpush
  | refused reason => exact .refuse hthread hawake hpush
  | waits => exact .park hthread hawake hpush

theorem moves_next (m : Monitor α) (move : Move) :
    m.Moves move (m.request? move) (m.next move) := by
  cases move with
  | rouse i =>
    unfold next step request?
    dsimp only
    split
    case h_1 value hthread => exact .rouse hthread
    case h_2 => exact .pass
  | act i target =>
    unfold next step request?
    dsimp only
    cases hthread : m.threads[i]? with
    | none => exact .pass
    | some thread =>
      cases thread with
      | pushing stage value =>
        cases stage with
        | parked => exact .pass
        | arriving | notified | roused => exact moves_ask hthread (by decide)
      | popping =>
        unfold Outbox.pop
        dsimp only
        cases hqueue : m.box.queue with
        | nil => exact .lack hthread hqueue
        | cons value rest => exact .take hthread hqueue
      | popNotifies taken =>
        unfold notifyOne
        dsimp only
        split
        case h_1 value hsleeper => exact .notify hthread hsleeper
        case h_2 =>
          split
          case isTrue => exact .pass
          case isFalse hnobody => exact .notifyNobody hthread (Bool.eq_false_iff.mpr hnobody)
      | closing => exact .close hthread
      | closeNotifies => exact .notifyAll hthread
      | pushed | popped | closed => exact .pass

lemma follow_cons (m : Monitor α) (move : Move) (rest : List Move) :
    m.follow (move :: rest) = (m.next move).follow rest :=
  rfl

lemma follow_append (m : Monitor α) (first rest : List Move) :
    m.follow (first ++ rest) = (m.follow first).follow rest :=
  List.foldl_append

lemma requests_append (m : Monitor α) (first rest : List Move) :
    m.requests (first ++ rest) = m.requests first ++ (m.follow first).requests rest := by
  induction first generalizing m with
  | nil => rfl
  | cons move first ih =>
    simp only [List.cons_append, requests, ih, follow_cons, List.append_assoc]

/-- What every move preserves, of a monitor and of an account of it, holds after any schedule. -/
theorem follow_induction {P : Monitor α → Account (Nat × α) → Prop}
    (hstep : ∀ m a move request m', m.Moves move request m' → P m a →
      P m' (a.serveAll request.toList))
    {a : Account (Nat × α)} (h : P m a) (moves : List Move) :
    P (m.follow moves) (a.serveAll (m.requests moves)) := by
  induction moves generalizing m a with
  | nil => exact h
  | cons move rest ih =>
    rw [follow_cons, requests, Account.serveAll_append]
    exact ih (hstep _ _ _ _ _ (m.moves_next move) h)

section Threads

variable {i j : Nat} {before after : Thread α}

lemma getElem?_update (hthread : m.threads[i]? = some before) :
    (m.update i after).threads[j]? = if i = j then some after else m.threads[j]? := by
  obtain ⟨hlt, -⟩ := List.getElem?_eq_some_iff.mp hthread
  simp only [update, List.getElem?_set, hlt, if_true]

lemma getElem?_update_self (hthread : m.threads[i]? = some before) :
    (m.update i after).threads[i]? = some after := by
  rw [getElem?_update hthread, if_pos rfl]

lemma getElem?_update_of_ne {thread : Thread α} (hthread : m.threads[i]? = some before)
    (hj : m.threads[j]? = some thread) (hne : thread ≠ before) (after : Thread α) :
    (m.update i after).threads[j]? = some thread := by
  rw [getElem?_update hthread]
  split
  case isTrue hij =>
    rw [hij, hj] at hthread
    exact absurd (Option.some.inj hthread) hne
  case isFalse => exact hj

lemma getElem?_notifyAll :
    m.notifyAll.threads[j]? = m.threads[j]?.map (Thread.awaken .notified) := by
  simp only [notifyAll, List.getElem?_map]

lemma getElem?_notifyAll_of_closeNotifies (hthread : m.threads[i]? = some .closeNotifies) :
    m.notifyAll.threads[i]? = some .closeNotifies := by
  rw [getElem?_notifyAll, hthread]
  rfl

lemma exists_split_update (hthread : m.threads[i]? = some before) (after : Thread α) :
    ∃ front back, m.threads = front ++ before :: back ∧
      (m.update i after).threads = front ++ after :: back := by
  obtain ⟨hlt, hbefore⟩ := List.getElem?_eq_some_iff.mp hthread
  obtain ⟨front, back, hsplit, -, hset⟩ : ∃ front back,
      m.threads = front ++ m.threads[i] :: back ∧ front.length = i ∧
        m.threads.set i after = front ++ after :: back := List.exists_of_set hlt
  rw [hbefore] at hsplit
  exact ⟨front, back, hsplit, hset⟩

/-- Somebody has closed the outbox. -/
def anyClosed (m : Monitor α) : Bool := m.threads.any Thread.hasClosed

lemma anyClosed_update (hthread : m.threads[i]? = some before) (after : Thread α)
    (hafter : after.hasClosed = before.hasClosed) : (m.update i after).anyClosed = m.anyClosed := by
  obtain ⟨front, back, hsplit, hset⟩ := exists_split_update hthread after
  unfold anyClosed
  rw [hset, hsplit, List.any_append, List.any_append, List.any_cons, List.any_cons, hafter]

lemma anyClosed_of_update (hthread : m.threads[i]? = some before)
    (hafter : after.hasClosed = true) : (m.update i after).anyClosed = true :=
  List.any_eq_true.mpr ⟨after, List.mem_of_getElem? (getElem?_update_self hthread), hafter⟩

lemma anyClosed_notifyAll (m : Monitor α) : m.notifyAll.anyClosed = m.anyClosed := by
  have hawake : Thread.hasClosed ∘ Thread.awaken (α := α) .notified = Thread.hasClosed :=
    funext (Thread.hasClosed_awaken .notified)
  unfold anyClosed notifyAll
  rw [List.any_map, hawake]

end Threads

/-- A move closes the outbox just if its thread is a closer's. -/
lemma Moves.isClosed_eq {m' : Monitor α} {move : Move} {request : Option (Request (Nat × α))}
    (h : m.Moves move request m') (hm : m.box.isClosed = m.anyClosed) :
    m'.box.isClosed = m'.anyClosed := by
  have hgoesOn {i : Nat} {before : Thread α} (hthread : m.threads[i]? = some before)
      (after : Thread α) (hafter : after.hasClosed = before.hasClosed) :
      m.box.isClosed = (m.update i after).anyClosed := by
    rw [hm, anyClosed_update hthread after hafter]
  cases h with
  | accept hthread _ hpush => exact (Outbox.isClosed_of_push hpush).trans (hgoesOn hthread _ rfl)
  | refuse hthread | park hthread | take hthread | lack hthread | notifyNobody hthread
  | rouse hthread => exact hgoesOn hthread _ rfl
  | @notify _ _ taken value hthread hsleeper =>
    have hstill := getElem?_update_of_ne hsleeper hthread (by simp) (.pushing .notified value)
    have hcalled := hgoesOn hsleeper (.pushing .notified value) rfl
    exact hcalled.trans (anyClosed_update hstill (.popped (some taken)) rfl).symm
  | close hthread => exact (anyClosed_of_update hthread rfl).symm
  | notifyAll hthread =>
    have hstill := getElem?_notifyAll_of_closeNotifies hthread
    have hcalled := hm.trans m.anyClosed_notifyAll.symm
    exact hcalled.trans (anyClosed_update hstill .closed rfl).symm
  | pass => exact hm

/-- The outbox is closed once a thread has closed it, and not before. -/
theorem isClosed_follow (capacity : Nat) (rule : Overflow) {threads : List (Thread α)}
    (hfresh : ∀ thread ∈ threads, thread.isFresh = true) (moves : List Move) :
    let m : Monitor α := follow ⟨.create capacity rule, threads⟩ moves
    m.box.isClosed = m.anyClosed := by
  refine follow_induction (P := fun m _ => m.box.isClosed = m.anyClosed)
    (a := .create capacity rule) (fun _ _ _ _ _ hmove h => hmove.isClosed_eq h) ?_ moves
  refine (List.any_eq_false.mpr fun thread hthread => ?_).symm
  rw [Thread.hasClosed_of_isFresh (hfresh thread hthread)]
  decide

/-- The account tells of the threads what they have done since they started. -/
structure Books (threads : List (Thread α)) (m : Monitor α) (a : Account (Nat × α)) : Prop where
  box : a.box.map Prod.snd = m.box
  /-- A push keeps its value for as long as it asks. -/
  origin : ∀ (i : Nat) (stage : Stage) (value : α), m.threads[i]? = some (.pushing stage value) →
    threads[i]? = some (.pushing .arriving value)
  accepted : ∀ (i : Nat) (value : α), (i, value) ∈ a.accepted ↔
    threads[i]? = some (.pushing .arriving value) ∧ m.threads[i]? = some (.pushed (.ok ()))
  nodup : (a.accepted.map Prod.fst).Nodup
  taken : (a.taken.map Prod.snd).Perm (m.threads.filterMap Thread.taken?)

section Books

variable {threads : List (Thread α)} {a : Account (Nat × α)} {i : Nat} {before after : Thread α}

lemma books_create {rule : Overflow} (capacity : Nat)
    (hfresh : ∀ thread ∈ threads, thread.isFresh = true) :
    Books threads ⟨.create capacity rule, threads⟩ (.create capacity rule) := by
  refine ⟨rfl, fun i stage value hthread => ?_, fun i value => ?_, List.nodup_nil, ?_⟩
  · have hthread : threads[i]? = some (.pushing stage value) := hthread
    have hstage := hfresh _ (List.mem_of_getElem? hthread)
    cases stage with
    | arriving => exact hthread
    | parked | notified | roused => cases hstage
  · refine iff_of_false List.not_mem_nil fun h => ?_
    have hpushed := hfresh _ (List.mem_of_getElem? h.2)
    cases hpushed
  · have hnone : threads.filterMap Thread.taken? = [] := by
      rw [List.filterMap_eq_nil_iff]
      exact fun thread hthread => Thread.taken?_eq_none_of_isFresh (hfresh thread hthread)
    change List.Perm [] (threads.filterMap Thread.taken?)
    rw [hnone]

section Update

variable (h : Books threads m a) (hthread : m.threads[i]? = some before)
  (hbefore : before ≠ .pushed (.ok ())) (hafter : after ≠ .pushed (.ok ()))
  (hvalue : ∀ stage value, after = .pushing stage value →
    ∃ earlier, before = .pushing earlier value)
include h hthread hbefore hafter hvalue

/-- A thread goes on without a value of its own being accepted. -/
lemma Books.change {b : Account (Nat × α)} {box : Outbox α} (hbox : b.box.map Prod.snd = box)
    (haccepted : b.accepted = a.accepted)
    (htaken : (b.taken.map Prod.snd).Perm ((m.update i after).threads.filterMap Thread.taken?)) :
    Books threads ({ m with box }.update i after) b := by
  have hother (j : Nat) : ({ m with box }.update i after).threads[j]? =
      if i = j then some after else m.threads[j]? := getElem?_update hthread
  refine ⟨hbox, fun j stage value hj => ?_, fun j value => ?_, ?_, htaken⟩
  · rw [hother] at hj
    split at hj
    case isTrue hij =>
      obtain ⟨earlier, rfl⟩ := hvalue stage value (Option.some.inj hj)
      rw [← hij]
      exact h.origin i earlier value hthread
    case isFalse => exact h.origin j stage value hj
  · rw [haccepted, h.accepted, hother]
    split
    case isTrue hij =>
      rw [← hij, hthread]
      simp [hbefore, hafter]
    case isFalse => rfl
  · rw [haccepted]
    exact h.nodup

/-- The same for a thread that does not touch the outbox. -/
lemma Books.update (htaken : after.taken? = before.taken?) :
    Books threads (m.update i after) a := by
  refine h.change hthread hbefore hafter hvalue h.box rfl ?_
  obtain ⟨front, back, hsplit, hset⟩ := exists_split_update hthread after
  have hperm := h.taken
  rw [hsplit] at hperm
  rw [hset]
  simpa only [List.filterMap_append, List.filterMap_cons, htaken] using hperm

end Update

/-- The outbox takes the value of a push, and the thread gets its answer. -/
lemma Books.accept (h : Books threads m a) {stage : Stage} {value : α} {box : Outbox α}
    (hthread : m.threads[i]? = some (.pushing stage value))
    (hpush : m.box.push value = .accepted box) :
    Books threads ({ m with box }.update i (.pushed (.ok ()))) (a.serve (.push (i, value))) := by
  have hother (j : Nat) : ({ m with box }.update i (.pushed (.ok ()))).threads[j]? =
      if i = j then some (.pushed (.ok ())) else m.threads[j]? := getElem?_update hthread
  have hmap : (a.box.map Prod.snd).push value = .accepted box := by rw [h.box]; exact hpush
  obtain ⟨marked, hmarked, hbox⟩ : ∃ marked, a.box.push (i, value) = .accepted marked ∧
      marked.map Prod.snd = box := Outbox.exists_accepted_of_map hmap
  rw [Account.serve_push_of_accepted hmarked]
  refine ⟨hbox, fun j stage value hj => ?_, fun j other => ?_, ?_, ?_⟩
  · rw [hother] at hj
    split at hj
    case isTrue => cases hj
    case isFalse => exact h.origin j stage value hj
  · rw [List.mem_append, List.mem_singleton, h.accepted, hother]
    split
    case isTrue hij =>
      have horigin := h.origin i stage value hthread
      rw [← hij, hthread, horigin]
      simp [eq_comm]
    case isFalse hij => simp [Ne.symm hij]
  · rw [List.map_append, List.map_singleton, List.nodup_append]
    refine ⟨h.nodup, List.nodup_singleton _, fun j hj k hk hjk => ?_⟩
    obtain ⟨⟨_, other⟩, hmem, rfl⟩ := List.mem_map.mp hj
    obtain rfl := List.mem_singleton.mp hk
    obtain rfl := hjk
    have hpushed := ((h.accepted _ other).mp hmem).2
    rw [hthread] at hpushed
    cases hpushed
  · obtain ⟨front, back, hsplit, hset⟩ := exists_split_update hthread (.pushed (.ok ()))
    have htaken := h.taken
    rw [hsplit] at htaken
    change (a.taken.map Prod.snd).Perm ((m.update i _).threads.filterMap Thread.taken?)
    rw [hset]
    simpa [List.filterMap_append, List.filterMap_cons, Thread.taken?] using htaken

/-- The outbox gives its first value to a thread that owes a notification for it. -/
lemma Books.take (h : Books threads m a) {value : α} {rest : List α}
    (hthread : m.threads[i]? = some .popping) (hqueue : m.box.queue = value :: rest) :
    Books threads ({ m with box := { m.box with queue := rest } }.update i (.popNotifies value))
      (a.serve .pop) := by
  have hmarked : a.box.queue.map Prod.snd = value :: rest := by
    rw [← hqueue, ← h.box]
    rfl
  obtain ⟨⟨j, other⟩, marked, hsplit, rfl, hrest⟩ := List.map_eq_cons_iff.mp hmarked
  rw [Account.serve_pop_of_cons hsplit]
  refine h.change hthread (by simp) (by simp) (by simp) ?_ rfl ?_
  · rw [← h.box, ← hrest]
    rfl
  · obtain ⟨front, back, hthreads, hset⟩ := exists_split_update hthread (.popNotifies other)
    have hperm := h.taken
    rw [hthreads, List.filterMap_append, List.filterMap_cons] at hperm
    rw [hset, List.filterMap_append, List.filterMap_cons, List.map_append]
    have hlast := (hperm.append_right [other]).trans (List.perm_append_singleton _ _)
    exact hlast.trans List.perm_middle.symm

lemma Books.close (h : Books threads m a) :
    Books threads { m with box := m.box.close } (a.serve .close) := by
  refine ⟨?_, h.origin, h.accepted, h.nodup, h.taken⟩
  rw [← h.box]
  rfl

lemma Books.notifyAll (h : Books threads m a) : Books threads m.notifyAll a := by
  refine ⟨h.box, fun i stage value hi => ?_, fun i value => ?_, h.nodup, ?_⟩
  · rw [getElem?_notifyAll] at hi
    obtain ⟨thread, hthread, hawake⟩ := Option.map_eq_some_iff.mp hi
    obtain ⟨earlier, rfl⟩ := Thread.exists_pushing_of_awaken hawake
    exact h.origin i earlier value hthread
  · rw [h.accepted, getElem?_notifyAll, Option.map_eq_some_iff]
    simp [Thread.awaken_eq_pushed]
  · have htaken :
        m.notifyAll.threads.filterMap Thread.taken? = m.threads.filterMap Thread.taken? := by
      simp only [Monitor.notifyAll, List.filterMap_map]
      exact List.filterMap_congr fun thread _ => Thread.taken?_awaken _ _
    rw [htaken]
    exact h.taken

/-- A push that is not accepted leaves no trace in the account. -/
lemma Books.serve_push (h : Books threads m a) {value : α}
    (hpush : ∀ box, m.box.push value ≠ .accepted box) : a.serve (.push (i, value)) = a := by
  refine Account.serve_push_of_declined fun marked hmarked => hpush (marked.map Prod.snd) ?_
  have hmap := a.box.push_map Prod.snd (i, value)
  rw [h.box, hmarked] at hmap
  exact hmap

theorem Books.moves (h : Books threads m a) {m' : Monitor α} {move : Move}
    {request : Option (Request (Nat × α))} (hmove : m.Moves move request m') :
    Books threads m' (a.serveAll request.toList) := by
  cases hmove with
  | accept hthread hawake hpush => exact h.accept hthread hpush
  | @refuse i _ _ value _ hthread hawake hpush =>
    have hserve : a.serve (.push (i, value)) = a := h.serve_push (by simp [hpush])
    change Books threads _ (a.serve (.push (i, value)))
    rw [hserve]
    exact h.update hthread (by simp) (by simp) (by simp) rfl
  | @park i _ _ value hthread hawake hpush =>
    have hserve : a.serve (.push (i, value)) = a := h.serve_push (by simp [hpush])
    change Books threads _ (a.serve (.push (i, value)))
    rw [hserve]
    exact h.update hthread (by simp) (by simp) (by simp) rfl
  | take hthread hqueue => exact h.take hthread hqueue
  | lack hthread hqueue =>
    have hempty : a.box.queue = [] := by
      rw [← h.box] at hqueue
      exact List.map_eq_nil_iff.mp hqueue
    change Books threads _ (a.serve .pop)
    rw [Account.serve_pop_of_nil hempty]
    exact h.update hthread (by simp) (by simp) (by simp) rfl
  | @notify _ _ _ value hthread hsleeper =>
    have hnotified : Books threads (m.update _ (.pushing .notified value)) a :=
      h.update hsleeper (by simp) (by simp) (by simp) rfl
    have hthread := getElem?_update_of_ne hsleeper hthread (by simp) (.pushing .notified value)
    exact hnotified.update hthread (by simp) (by simp) (by simp) rfl
  | notifyNobody hthread => exact h.update hthread (by simp) (by simp) (by simp) rfl
  | close hthread =>
    exact h.close.update (m := { m with box := m.box.close }) hthread (by simp) (by simp) (by simp)
      rfl
  | notifyAll hthread =>
    have hthread := getElem?_notifyAll_of_closeNotifies hthread
    exact h.notifyAll.update hthread (by simp) (by simp) (by simp) rfl
  | rouse hthread => exact h.update hthread (by simp) (by simp) (by simp) rfl
  | pass => exact h

theorem books_follow (h : Books threads m a) (moves : List Move) :
    Books threads (m.follow moves) (a.serveAll (m.requests moves)) :=
  follow_induction (P := Books threads) (fun _ _ _ _ _ hmove h => h.moves hmove) h moves

end Books

section Answers

variable {i j target : Nat} {thread before after : Thread α} {stage : Stage} {value : α}

lemma next_of_pushing (hthread : m.threads[i]? = some (.pushing stage value))
    (hawake : stage ≠ .parked) (target : Nat) : m.next (.act i target) = m.ask i value := by
  cases stage with
  | parked => exact absurd rfl hawake
  | arriving | notified | roused => simp only [next, step, hthread, Option.getD_some]

lemma next_of_popping {rest : List α} (hthread : m.threads[i]? = some .popping)
    (hqueue : m.box.queue = value :: rest) (target : Nat) : m.next (.act i target) =
      { m with box := { m.box with queue := rest } }.update i (.popNotifies value) := by
  simp only [next, step, hthread, Outbox.pop, hqueue, Option.getD_some]

lemma next_of_closing (hthread : m.threads[i]? = some .closing) (target : Nat) :
    m.next (.act i target) = { m with box := m.box.close }.update i .closeNotifies := by
  simp only [next, step, hthread, Option.getD_some]

lemma next_of_closeNotifies (hthread : m.threads[i]? = some .closeNotifies) (target : Nat) :
    m.next (.act i target) = m.notifyAll.update i .closed := by
  simp only [next, step, hthread, Option.getD_some]

lemma pushed_of_update {answer : Except Refusal Unit} (hthread : m.threads[i]? = some before)
    (hafter : after ≠ .pushed answer)
    (hj : (m.update i after).threads[j]? = some (.pushed answer)) :
    m.threads[j]? = some (.pushed answer) := by
  rw [getElem?_update hthread] at hj
  split at hj
  case isTrue => exact absurd (Option.some.inj hj) hafter
  case isFalse => exact hj

/-- A push is refused by its own thread's move, when the outbox says so. -/
theorem Moves.refused {m' : Monitor α} {move : Move} {request : Option (Request (Nat × α))}
    {reason : Refusal} (h : m.Moves move request m')
    (hbefore : m.threads[j]? ≠ some (.pushed (.error reason)))
    (hafter : m'.threads[j]? = some (.pushed (.error reason))) :
    ∃ value, request = some (.push (j, value)) ∧ m.box.push value = .refused reason ∧
      m'.box = m.box := by
  cases h with
  | @refuse i _ _ value answer hthread _ hpush =>
    rw [getElem?_update hthread] at hafter
    split at hafter
    case isTrue hij =>
      cases hafter
      exact ⟨value, by rw [hij], hpush, rfl⟩
    case isFalse => exact absurd hafter hbefore
  | accept hthread | park hthread | take hthread | lack hthread | notifyNobody hthread
  | close hthread | rouse hthread =>
    exact absurd (pushed_of_update hthread (by simp) hafter) hbefore
  | @notify _ _ _ value hthread hsleeper =>
    have hthread := getElem?_update_of_ne hsleeper hthread (by simp) (.pushing .notified value)
    have hnotified := pushed_of_update hthread (by simp) hafter
    exact absurd (pushed_of_update hsleeper (by simp) hnotified) hbefore
  | notifyAll hthread =>
    have hthread := getElem?_notifyAll_of_closeNotifies hthread
    have hnotified := pushed_of_update hthread (by simp) hafter
    rw [getElem?_notifyAll, Option.map_eq_some_iff] at hnotified
    obtain ⟨thread, hthread, hawake⟩ := hnotified
    rw [Thread.awaken_eq_pushed.mp hawake] at hthread
    exact absurd hthread hbefore
  | pass => exact absurd hafter hbefore

end Answers

/-- The account of an outbox that keeps what it accepts, whoever asks and whenever. What was taken
and what is left is what was accepted, each value of a push once and in the order of acceptance. A
push is refused by a closed outbox and, if the rule says so, by one that is full; nothing else
changes then. The outbox is closed once a thread has closed it, and not before; what it holds stays.
From then on nothing is accepted any more, every push that asks is refused, and what the outbox
holds is taken in order. -/
theorem lossless_outbox_account (capacity : Nat) (rule : Overflow)
    (hrule : rule = .buffer ∨ rule = .refuse ∨ rule = .block) (threads : List (Thread α))
    (hfresh : ∀ thread ∈ threads, thread.isFresh = true) (moves : List Move) :
    let start : Monitor α := ⟨.create capacity rule, threads⟩
    let m := start.follow moves
    let account (moves : List Move) :=
      (Account.create capacity rule).serveAll (start.requests moves)
    let a := account moves
    Books threads m a ∧
    a.kept = a.accepted ∧
    (rule ≠ .buffer → m.box.size ≤ max capacity 1) ∧
    (∀ (move : Move) (i : Nat) (reason : Refusal),
      m.threads[i]? ≠ some (.pushed (.error reason)) →
      (m.next move).threads[i]? = some (.pushed (.error reason)) →
      (m.next move).box = m.box ∧ account (moves ++ [move]) = a ∧
        (reason = .closed ∧ m.box.isClosed = true ∨
          reason = .full (max capacity 1) ∧ rule = .refuse ∧ m.box.isClosed = false ∧
            m.box.size = max capacity 1)) ∧
    (rule = .buffer → m.box.isClosed = false → ∀ (i target : Nat) (stage : Stage) (value : α),
      m.threads[i]? = some (.pushing stage value) → stage ≠ .parked →
        (m.next (.act i target)).threads[i]? = some (.pushed (.ok ()))) ∧
    (m.box.isClosed = true → ∀ later,
      (account (moves ++ later)).accepted = a.accepted ∧
      ∃ out, (account (moves ++ later)).taken = a.taken ++ out ∧
        out ++ (account (moves ++ later)).box.queue = a.box.queue) ∧
    (∀ (i target : Nat) (value : α) (rest : List α),
      m.threads[i]? = some .popping → m.box.queue = value :: rest →
        (m.next (.act i target)).threads[i]? = some (.popNotifies value) ∧
        (m.next (.act i target)).box.queue = rest) ∧
    m.box.isClosed = m.anyClosed ∧
    (∀ i target : Nat, m.threads[i]? = some .closing →
      (m.next (.act i target)).anyClosed = true ∧
      (m.next (.act i target)).box.queue = m.box.queue) ∧
    (m.anyClosed = true → ∀ (i target : Nat) (stage : Stage) (value : α),
      m.threads[i]? = some (.pushing stage value) → stage ≠ .parked →
        (m.next (.act i target)).threads[i]? = some (.pushed (.error .closed))) := by
  intro start m account a
  have hrules : rule ≠ .dropOldest ∧ rule ≠ .latest := by
    rcases hrule with rfl | rfl | rfl <;> decide
  have hbooks : Books threads m a := books_follow (books_create capacity hfresh) moves
  have hlater (later : List Move) : account (moves ++ later) = a.serveAll (m.requests later) := by
    simp only [account, requests_append, Account.serveAll_append, a, m]
  have hbox : a.box.map Prod.snd = m.box := hbooks.box
  have hcapacity : m.box.capacity = max capacity 1 := by
    rw [← hbox, Outbox.capacity_map]
    exact Account.capacity_serveAll _ _
  have hkeeps : m.box.rule = rule := by
    rw [← hbox, Outbox.rule_map]
    exact Account.rule_serveAll _ _
  have hsize (hbuffer : rule ≠ .buffer) : m.box.size ≤ max capacity 1 := by
    rw [← hbox, Outbox.size_map]
    exact Account.size_serveAll_le hbuffer (Nat.zero_le _) _
  have hshut : m.box.isClosed = m.anyClosed := isClosed_follow capacity rule hfresh moves
  refine ⟨hbooks, Account.kept_serveAll_eq hrules.1 hrules.2 rfl _, hsize,
    fun move i reason hbefore hafter => ?_,
    fun hbuffer hopen i target stage value hthread hawake => ?_,
    fun hclosed later => ?_, fun i target value rest hthread hqueue => ?_, hshut,
    fun i target hthread => ?_, fun hclosed i target stage value hthread hawake => ?_⟩
  · obtain ⟨value, hrequest, hpush, hsame⟩ := (m.moves_next move).refused hbefore hafter
    refine ⟨hsame, ?_, ?_⟩
    · rw [hlater, requests, hrequest]
      exact hbooks.serve_push (by simp [hpush])
    · rcases Outbox.refused_of_push hpush with ⟨rfl, hclosed⟩ | ⟨rfl, hopen, hfull, hrefuse⟩
      · exact Or.inl ⟨rfl, hclosed⟩
      · have hle : m.box.capacity ≤ m.box.size := of_decide_eq_true hfull
        rw [hkeeps] at hrefuse
        rw [hcapacity] at hle ⊢
        have hge := hsize (by rw [hrefuse]; decide)
        exact Or.inr ⟨rfl, hrefuse, hopen, Nat.le_antisymm hge hle⟩
  · have hrefuse : m.box.rule ≠ .refuse := by simp [hkeeps, hbuffer]
    have hblock : m.box.rule ≠ .block := by simp [hkeeps, hbuffer]
    obtain ⟨after, hafter⟩ := Outbox.exists_accepted hopen hrefuse hblock value
    rw [next_of_pushing hthread hawake, ask, hafter]
    exact getElem?_update_self (m := { m with box := after }) hthread
  · rw [← hbox, Outbox.isClosed_map] at hclosed
    rw [hlater]
    exact ⟨(Account.serveAll_of_closed hclosed _).2.1, Account.exists_given_of_closed hclosed _⟩
  · rw [next_of_popping hthread hqueue]
    exact ⟨getElem?_update_self (m := { m with box := _ }) hthread, rfl⟩
  · rw [next_of_closing hthread]
    exact ⟨anyClosed_of_update hthread rfl, rfl⟩
  · have hrefused : m.box.push value = .refused .closed :=
      Outbox.push_of_closed (hshut.trans hclosed) value
    rw [next_of_pushing hthread hawake, ask, hrefused]
    exact getElem?_update_self hthread

/-- The first push takes the room, the second one waits for the pop and is accepted after it. Then
the outbox is closed: the third push is refused, and what is left comes out. -/
theorem lossless_outbox_account_past_a_close :
    let threads : List (Thread Char) := [.pushing .arriving 'a', .pushing .arriving 'b', .popping,
      .closing, .pushing .arriving 'c', .popping]
    let before : List Move := [.act 0 0, .act 1 0, .act 2 0, .act 2 1, .act 1 0, .act 3 0]
    let after : List Move := [.act 4 0, .act 5 0]
    let start : Monitor Char := ⟨.create 0 .block, threads⟩
    let m := start.follow before
    let account (moves : List Move) :=
      (Account.create 0 .block).serveAll (start.requests moves)
    (Overflow.block = .buffer ∨ Overflow.block = .refuse ∨ Overflow.block = .block) ∧
      (∀ thread ∈ threads, thread.isFresh = true) ∧ m.anyClosed = true ∧ m.box.isClosed = true ∧
      (account before).accepted = [(0, 'a'), (1, 'b')] ∧ (account before).taken = [(0, 'a')] ∧
      (account before).kept = (account before).accepted ∧
      (m.next (.act 4 0)).threads[4]? = some (.pushed (.error .closed)) ∧
      (account (before ++ after)).accepted = (account before).accepted ∧
      (account (before ++ after)).taken = [(0, 'a'), (1, 'b')] := by
  intro threads before after start m account
  have hrule : Overflow.block = .buffer ∨ Overflow.block = .refuse ∨ Overflow.block = .block :=
    Or.inr (Or.inr rfl)
  have hfresh : ∀ thread ∈ threads, thread.isFresh = true := by simp [threads, Thread.isFresh]
  have h := lossless_outbox_account 0 .block hrule threads hfresh before
  have hkept : (account before).kept = (account before).accepted := h.2.1
  have hclosed : m.anyClosed = true := by decide +kernel
  have hshut := h.2.2.2.2.2.2.2.1.trans hclosed
  have hthird : m.threads[4]? = some (.pushing .arriving 'c') := by cbv
  have hrefused : (m.next (.act 4 0)).threads[4]? = some (.pushed (.error .closed)) :=
    h.2.2.2.2.2.2.2.2.2 hclosed 4 0 .arriving 'c' hthird (by decide)
  have hover : (account (before ++ after)).accepted = (account before).accepted :=
    (h.2.2.2.2.2.1 hshut after).1
  exact ⟨hrule, hfresh, hclosed, by decide +kernel, by decide +kernel, by decide +kernel, hkept,
    hrefused, hover, by decide +kernel⟩

end Monitor

end Redial.Delivery
