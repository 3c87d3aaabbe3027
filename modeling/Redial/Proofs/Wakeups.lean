import Mathlib.Data.List.Count
import Redial.Proofs.SharedOutboxes

/-!
# Wakeups of waiting pushes

A pop that took a value wakes up one thread at most, and only later; meanwhile another thread may
take the room. Still no push is left asleep: as long as there is room in an open outbox and somebody
sleeps, there are as many wakeups under way as there are free places. A wakeup is under way from the
pop that owes it until the push that got it asks again.
-/

namespace Redial.Delivery

namespace Thread

variable {α : Type}

/-- It owes a notification for a value that it took, or it was called and has not asked again. -/
def isWakeup : Thread α → Bool
  | popNotifies _ | pushing .notified _ => true
  | _ => false

lemma isParked_awaken_notified (thread : Thread α) :
    (thread.awaken .notified).isParked = false := by
  unfold awaken
  split
  case h_1 => rfl
  case h_2 thread hasleep =>
    unfold isParked
    split
    case h_1 value => exact absurd rfl (hasleep value)
    case h_2 => rfl

lemma isParked_of_isFresh {thread : Thread α} (h : thread.isFresh = true) :
    thread.isParked = false := by
  cases thread with
  | pushing stage value =>
    cases stage with
    | arriving | notified | roused => rfl
    | parked => cases h
  | pushed | popping | popNotifies | popped | closing | closeNotifies | closed => rfl

/-- It owes a notification to everybody. -/
def owesAll : Thread α → Bool
  | closeNotifies => true
  | _ => false

end Thread

namespace Outbox

variable {α : Type} {box : Outbox α}

def freePlaces (box : Outbox α) : Nat := box.capacity - box.size

lemma freePlaces_append (hroom : box.isFull = false) (value : α) :
    (box.append value).freePlaces + 1 = box.freePlaces := by
  have hlt : ¬ box.capacity ≤ box.queue.length := of_decide_eq_false hroom
  simp only [freePlaces, append, size, List.length_append, List.length_singleton]
  omega

lemma freePlaces_le_of_cons {value : α} {rest : List α} (hqueue : box.queue = value :: rest) :
    freePlaces { box with queue := rest } ≤ box.freePlaces + 1 := by
  simp only [freePlaces, size, hqueue, List.length_cons]
  omega

lemma freePlaces_of_isFull (hfull : box.isFull = true) : box.freePlaces = 0 :=
  Nat.sub_eq_zero_of_le (of_decide_eq_true hfull)

end Outbox

namespace Monitor

variable {α : Type} {m : Monitor α}

/-- How many wakeups are under way. -/
def wakeups (m : Monitor α) : Nat := m.threads.countP Thread.isWakeup

/-- A notification to everybody is still owed. -/
def owesAll (m : Monitor α) : Bool := m.threads.any Thread.owesAll

/-- Nobody is left asleep: while somebody sleeps, there is a wakeup under way for each free place,
and everybody is about to be called once the outbox is closed. -/
structure Watchful (m : Monitor α) : Prop where
  rule : m.box.rule = .block
  room : m.anyParked = true → m.box.isClosed = false → m.box.freePlaces ≤ m.wakeups
  called : m.anyParked = true → m.box.isClosed = true → m.owesAll = true

section Threads

variable {i : Nat} {before after : Thread α}

/-- One thread less before and one more after. -/
lemma wakeups_update (hthread : m.threads[i]? = some before) (after : Thread α) :
    (m.update i after).wakeups + before.isWakeup.toNat = m.wakeups + after.isWakeup.toNat := by
  obtain ⟨front, back, hsplit, hset⟩ := exists_split_update hthread after
  have hcons (thread : Thread α) : (front ++ thread :: back).countP Thread.isWakeup =
      front.countP Thread.isWakeup + back.countP Thread.isWakeup + thread.isWakeup.toNat := by
    rw [List.countP_append, List.countP_cons, Nat.add_assoc]
    cases thread.isWakeup <;> rfl
  unfold wakeups
  rw [hset, hsplit, hcons, hcons]
  omega

lemma anyParked_update (hthread : m.threads[i]? = some before) (hafter : after.isParked = false)
    (h : (m.update i after).anyParked = true) : m.anyParked = true := by
  obtain ⟨front, back, hsplit, hset⟩ := exists_split_update hthread after
  unfold anyParked at h ⊢
  rw [hset] at h
  rw [hsplit]
  simp only [List.any_append, List.any_cons, hafter, Bool.false_or, Bool.or_eq_true] at h ⊢
  tauto

lemma owesAll_update (hthread : m.threads[i]? = some before) (hbefore : before.owesAll = false)
    (h : m.owesAll = true) : (m.update i after).owesAll = true := by
  obtain ⟨front, back, hsplit, hset⟩ := exists_split_update hthread after
  unfold owesAll at h ⊢
  rw [hsplit] at h
  rw [hset]
  simp only [List.any_append, List.any_cons, hbefore, Bool.false_or, Bool.or_eq_true] at h ⊢
  tauto

lemma owesAll_of_update (hthread : m.threads[i]? = some before) (hafter : after.owesAll = true) :
    (m.update i after).owesAll = true :=
  List.any_eq_true.mpr ⟨after, List.mem_of_getElem? (getElem?_update_self hthread), hafter⟩

lemma anyParked_notifyAll (m : Monitor α) : m.notifyAll.anyParked = false := by
  simp only [anyParked, notifyAll, List.any_map, List.any_eq_false, Function.comp_apply]
  exact fun thread _ => Bool.eq_false_iff.mp (Thread.isParked_awaken_notified thread)

/-- Once everybody has been called nobody sleeps. -/
lemma anyParked_update_notifyAll (hthread : m.threads[i]? = some .closeNotifies) :
    (m.notifyAll.update i .closed).anyParked = false := by
  refine Bool.eq_false_iff.mpr fun hparked => ?_
  have hparked := anyParked_update (getElem?_notifyAll_of_closeNotifies hthread) rfl hparked
  rw [anyParked_notifyAll] at hparked
  cases hparked

end Threads

namespace Watchful

variable {i : Nat} {before after : Thread α}

lemma of_nobodyParked (hrule : m.box.rule = .block) (hnobody : m.anyParked = false) :
    m.Watchful := by
  refine ⟨hrule, fun hparked => ?_, fun hparked => ?_⟩ <;>
  · rw [hnobody] at hparked
    cases hparked

/-- A thread goes on that does not fall asleep, and it neither takes a wakeup away without filling a
place nor frees a place without owing a wakeup. -/
lemma change (h : m.Watchful) (hthread : m.threads[i]? = some before)
    (hbefore : before.owesAll = false) (hafter : after.isParked = false) {box : Outbox α}
    (hrule : box.rule = .block) (hclosed : box.isClosed = m.box.isClosed)
    (hroom : m.box.isClosed = false →
      box.freePlaces + before.isWakeup.toNat ≤ m.box.freePlaces + after.isWakeup.toNat) :
    Watchful ({ m with box }.update i after) := by
  refine ⟨hrule, fun hparked hopen => ?_, fun hparked hshut => ?_⟩
  · have hopen : m.box.isClosed = false := hclosed.symm.trans hopen
    have hwakeups : ({ m with box }.update i after).wakeups + _ = _ := wakeups_update hthread after
    have hle := h.room (anyParked_update hthread hafter hparked) hopen
    have hplaces := hroom hopen
    change box.freePlaces ≤ _
    omega
  · have hshut : m.box.isClosed = true := hclosed.symm.trans hshut
    have howes := h.called (anyParked_update hthread hafter hparked) hshut
    exact owesAll_update hthread hbefore howes

lemma notify (h : m.Watchful) {target : Nat} {taken value : α}
    (hthread : m.threads[i]? = some (.popNotifies taken))
    (hsleeper : m.threads[target]? = some (.pushing .parked value)) :
    Watchful ((m.update target (.pushing .notified value)).update i (.popped (some taken))) := by
  have hstill := getElem?_update_of_ne hsleeper hthread (by simp) (.pushing .notified value)
  refine ⟨h.rule, fun hparked hopen => ?_, fun hparked hclosed => ?_⟩
  · have hcalled := wakeups_update hsleeper (.pushing .notified value)
    have hpaid := wakeups_update hstill (.popped (some taken))
    have hasleep := anyParked_update hsleeper rfl (anyParked_update hstill rfl hparked)
    have hle := h.room hasleep hopen
    simp only [Thread.isWakeup, Bool.toNat_true, Bool.toNat_false] at hcalled hpaid
    change m.box.freePlaces ≤ _
    omega
  · have hasleep := anyParked_update hsleeper rfl (anyParked_update hstill rfl hparked)
    have howes := h.called hasleep hclosed
    exact owesAll_update hstill rfl (owesAll_update hsleeper rfl howes)

theorem moves (h : m.Watchful) {m' : Monitor α} {move : Move} {request : Option (Request (Nat × α))}
    (hmove : m.Moves move request m') : m'.Watchful := by
  cases hmove with
  | @accept i _ stage value _ hthread _ hpush =>
    obtain ⟨-, haccepts⟩ := Outbox.accepts_of_push hpush
    obtain ⟨hroom, rfl⟩ := haccepts.of_block h.rule
    refine h.change hthread rfl rfl h.rule rfl fun _ => ?_
    have hplaces := Outbox.freePlaces_append hroom value
    have hone := Bool.toNat_le (Thread.pushing stage value).isWakeup
    change _ ≤ m.box.freePlaces + 0
    omega
  | refuse hthread _ hpush =>
    have hclosed := (Outbox.closed_of_refused hpush (by simp [h.rule])).2
    exact h.change hthread rfl rfl h.rule rfl (by simp [hclosed])
  | park hthread _ hpush =>
    obtain ⟨hopen, hfull, -⟩ := Outbox.waits_of_push hpush
    refine ⟨h.rule, fun _ _ => ?_, fun _ hclosed => ?_⟩
    · change m.box.freePlaces ≤ _
      rw [Outbox.freePlaces_of_isFull hfull]
      exact Nat.zero_le _
    · have hclosed : m.box.isClosed = true := hclosed
      rw [hopen] at hclosed
      cases hclosed
  | take hthread hqueue =>
    exact h.change hthread rfl rfl h.rule rfl fun _ => Outbox.freePlaces_le_of_cons hqueue
  | lack hthread => exact h.change hthread rfl rfl h.rule rfl fun _ => Nat.le_refl _
  | notify hthread hsleeper => exact h.notify hthread hsleeper
  | notifyNobody hthread hnobody =>
    refine of_nobodyParked h.rule (Bool.eq_false_iff.mpr fun hparked => ?_)
    have hparked := anyParked_update hthread rfl hparked
    rw [hnobody] at hparked
    cases hparked
  | close hthread =>
    refine ⟨h.rule, fun _ hopen => ?_, fun _ _ => owesAll_of_update hthread rfl⟩
    cases hopen
  | notifyAll hthread => exact of_nobodyParked h.rule (anyParked_update_notifyAll hthread)
  | rouse hthread => exact h.change hthread rfl rfl h.rule rfl fun _ => Nat.le_refl _
  | pass => exact h

end Watchful

lemma Moves.isClosed {m' : Monitor α} {move : Move} {request : Option (Request (Nat × α))}
    (h : m.Moves move request m') (hm : m.box.isClosed = true) : m'.box.isClosed = true := by
  cases h with
  | accept _ _ hpush =>
    rw [(Outbox.accepts_of_push hpush).1] at hm
    cases hm
  | close => rfl
  | refuse | park | take | lack | notify | notifyNobody | notifyAll | rouse | pass => exact hm

/-- Pushes have been refused for no other reason than that the outbox is closed. -/
def RefusedClosed (m : Monitor α) : Prop :=
  ∀ (i : Nat) (reason : Refusal), m.threads[i]? = some (.pushed (.error reason)) →
    reason = .closed ∧ m.box.isClosed = true

lemma RefusedClosed.moves (h : m.RefusedClosed) (hrule : m.box.rule ≠ .refuse) {m' : Monitor α}
    {move : Move} {request : Option (Request (Nat × α))} (hmove : m.Moves move request m') :
    m'.RefusedClosed := by
  intro i reason hafter
  by_cases hbefore : m.threads[i]? = some (.pushed (.error reason))
  · obtain ⟨hreason, hclosed⟩ := h i reason hbefore
    exact ⟨hreason, hmove.isClosed hclosed⟩
  · obtain ⟨value, -, hpush, hbox⟩ := hmove.refused hbefore hafter
    rw [hbox]
    exact Outbox.closed_of_refused hpush hrule

section Fresh

variable {threads : List (Thread α)} (hfresh : ∀ thread ∈ threads, thread.isFresh = true)
include hfresh

lemma watchful_create (capacity : Nat) : Watchful ⟨.create capacity .block, threads⟩ := by
  refine .of_nobodyParked rfl ?_
  simp only [anyParked, List.any_eq_false, Bool.not_eq_true]
  exact fun thread hthread => Thread.isParked_of_isFresh (hfresh thread hthread)

lemma refusedClosed_create (capacity : Nat) : RefusedClosed ⟨.create capacity .block, threads⟩ := by
  intro i reason hthread
  cases hfresh _ (List.mem_of_getElem? hthread)

theorem watchful_follow (capacity : Nat) (moves : List Move) :
    let m : Monitor α := follow ⟨.create capacity .block, threads⟩ moves
    m.Watchful ∧ m.RefusedClosed :=
  follow_induction (P := fun m _ => m.Watchful ∧ m.RefusedClosed) (a := .create capacity .block)
    (fun _ _ _ _ _ hmove h => ⟨h.1.moves hmove, h.2.moves (by simp [h.1.rule]) hmove⟩)
    ⟨watchful_create hfresh capacity, refusedClosed_create hfresh capacity⟩ moves

end Fresh

/-- No wakeup is lost. While a push sleeps and the outbox is open, each free place has a wakeup
under way; while one sleeps and the outbox is closed, the notification to everybody is still owed.
So once all notifications have been paid and all that were called have asked again, a push sleeps
only if the outbox is open and full. The outbox is closed once a thread has closed it, and not
before. That thread owes the notification to everybody, and once it is paid nobody sleeps any more.
A push that has its answer either had its value accepted, once and before the outbox was closed, or
it was refused by the closed outbox and its value was never accepted. -/
theorem no_wakeup_lost (capacity : Nat) (threads : List (Thread α))
    (hfresh : ∀ thread ∈ threads, thread.isFresh = true) (moves : List Move) :
    let start : Monitor α := ⟨.create capacity .block, threads⟩
    let m := start.follow moves
    let account (moves : List Move) :=
      (Account.create capacity .block).serveAll (start.requests moves)
    let a := account moves
    Books threads m a ∧
    (m.anyParked = true → m.box.isClosed = false → m.box.freePlaces ≤ m.wakeups) ∧
    (m.anyParked = true → m.box.isClosed = true → m.owesAll = true) ∧
    (m.wakeups = 0 → m.owesAll = false → m.anyParked = true →
      m.box.isClosed = false ∧ m.box.freePlaces = 0) ∧
    (∀ (i : Nat) (value : α) (answer : Except Refusal Unit),
      threads[i]? = some (.pushing .arriving value) → m.threads[i]? = some (.pushed answer) →
        (answer = .ok () ∧ (i, value) ∈ a.accepted ∧ (a.accepted.map Prod.fst).count i = 1) ∨
        (answer = .error .closed ∧ m.box.isClosed = true ∧ (a.accepted.map Prod.fst).count i = 0)) ∧
    (m.box.isClosed = true → ∀ later, (account (moves ++ later)).accepted = a.accepted) ∧
    m.box.isClosed = m.anyClosed ∧
    (∀ i target : Nat, m.threads[i]? = some .closing →
      (m.next (.act i target)).anyClosed = true ∧ (m.next (.act i target)).owesAll = true) ∧
    (∀ i target : Nat, m.threads[i]? = some .closeNotifies →
      (m.next (.act i target)).anyParked = false) ∧
    (m.anyClosed = true → m.owesAll = false → m.anyParked = false) := by
  intro start m account a
  have hbooks : Books threads m a := books_follow (books_create capacity hfresh) moves
  obtain ⟨hwatchful, hrefused⟩ : m.Watchful ∧ m.RefusedClosed :=
    watchful_follow hfresh capacity moves
  have hshut : m.box.isClosed = m.anyClosed := isClosed_follow capacity .block hfresh moves
  have hnobody (hclosed : m.box.isClosed = true) (howes : m.owesAll = false) :
      m.anyParked = false := by
    refine Bool.eq_false_iff.mpr fun hparked => ?_
    have hcalled := hwatchful.called hparked hclosed
    rw [howes] at hcalled
    cases hcalled
  refine ⟨hbooks, hwatchful.room, hwatchful.called, fun hwakeups howes hparked => ?_,
    fun i value answer hstart hthread => ?_, fun hclosed later => ?_, hshut,
    fun i target hthread => ?_, fun i target hthread => ?_,
    fun hclosed => hnobody (hshut.trans hclosed)⟩
  · have hopen : m.box.isClosed = false := by
      refine Bool.eq_false_iff.mpr fun hclosed => ?_
      rw [hnobody hclosed howes] at hparked
      cases hparked
    have hplaces := hwatchful.room hparked hopen
    rw [hwakeups] at hplaces
    exact ⟨hopen, Nat.le_zero.mp hplaces⟩
  · cases answer with
    | ok =>
      have hmem : (i, value) ∈ a.accepted := (hbooks.accepted i value).mpr ⟨hstart, hthread⟩
      exact Or.inl ⟨rfl, hmem, List.count_eq_one_of_mem hbooks.nodup (List.mem_map_of_mem hmem)⟩
    | error reason =>
      obtain ⟨rfl, hclosed⟩ := hrefused i reason hthread
      refine Or.inr ⟨rfl, hclosed, List.count_eq_zero.mpr fun hmem => ?_⟩
      obtain ⟨⟨_, other⟩, haccepted, rfl⟩ := List.mem_map.mp hmem
      have hpushed := ((hbooks.accepted _ other).mp haccepted).2
      rw [hthread] at hpushed
      cases hpushed
  · have hlater : account (moves ++ later) = a.serveAll (m.requests later) := by
      simp only [account, requests_append, Account.serveAll_append, a, m]
    rw [← hbooks.box, Outbox.isClosed_map] at hclosed
    rw [hlater]
    exact (Account.serveAll_of_closed hclosed _).2.1
  · rw [next_of_closing hthread]
    exact ⟨anyClosed_of_update hthread rfl, owesAll_of_update hthread rfl⟩
  · rw [next_of_closeNotifies hthread]
    exact anyParked_update_notifyAll hthread

/-- Two pushes sleep when a value is taken: one place is free, and the pop owes the wakeup for it.
Then the outbox is closed: everybody is owed a call, and after it nobody sleeps. -/
theorem no_wakeup_lost_past_a_close :
    let threads : List (Thread Char) :=
      [.pushing .arriving 'a', .pushing .arriving 'b', .pushing .arriving 'c', .popping, .closing]
    let start : Monitor Char := ⟨.create 1 .block, threads⟩
    let before : List Move := [.act 0 0, .act 1 0, .act 2 0, .act 3 0]
    let taken := start.follow before
    let shut := start.follow (before ++ [.act 4 0])
    let called := start.follow (before ++ [.act 4 0, .act 4 0])
    (∀ thread ∈ threads, thread.isFresh = true) ∧ taken.anyParked = true ∧
      taken.box.isClosed = false ∧ taken.box.freePlaces = 1 ∧ taken.wakeups = 1 ∧
      taken.box.freePlaces ≤ taken.wakeups ∧ shut.anyParked = true ∧ shut.anyClosed = true ∧
      shut.owesAll = true ∧ called.anyClosed = true ∧ called.owesAll = false ∧
      called.anyParked = false := by
  intro threads start before taken shut called
  have hfresh : ∀ thread ∈ threads, thread.isFresh = true := by simp [threads, Thread.isFresh]
  have hparked : taken.anyParked = true := by decide +kernel
  have hopen : taken.box.isClosed = false := by decide +kernel
  have hroom : taken.box.freePlaces ≤ taken.wakeups :=
    (no_wakeup_lost 1 threads hfresh before).2.1 hparked hopen
  have hasleep : shut.anyParked = true := by decide +kernel
  have hshut : shut.anyClosed = true := by decide +kernel
  have hafterClose := no_wakeup_lost 1 threads hfresh (before ++ [.act 4 0])
  have howes := hafterClose.2.2.1 hasleep (hafterClose.2.2.2.2.2.2.1.trans hshut)
  have hclosed : called.anyClosed = true := by decide +kernel
  have hpaid : called.owesAll = false := by decide +kernel
  have hafterCall := no_wakeup_lost 1 threads hfresh (before ++ [.act 4 0, .act 4 0])
  have hnobody := hafterCall.2.2.2.2.2.2.2.2.2 hclosed hpaid
  exact ⟨hfresh, hparked, hopen, by decide +kernel, by decide +kernel, hroom, hasleep, hshut, howes,
    hclosed, hpaid, hnobody⟩

end Monitor

end Redial.Delivery
