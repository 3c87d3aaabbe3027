import Mathlib.Tactic.Lemma
import Redial.Delivery.Outbox

/-!
# What goes through an outbox

An outbox is asked to take a value, to give one or to close, one request after the other. The
account of an outbox lists the values that it has accepted and those that it has given away, the
oldest first. Whoever asks, and in whatever order, what holds of all accounts holds of the outbox.
-/

namespace Redial.Delivery

namespace Outbox

variable {α β : Type} {box after : Outbox α} {value : α} {reason : Refusal}

lemma ne_nil_of_isFull (h : box.isFull = true) : box.queue ≠ [] := by
  intro hempty
  have hsize : box.capacity ≤ box.queue.length := of_decide_eq_true h
  rw [hempty] at hsize
  exact Nat.not_le.mpr box.capacity_pos hsize

lemma replaceLast_eq {values : List α} (h : values ≠ []) (value : α) :
    replaceLast value values = values.dropLast ++ [value] := by
  have hvalues := List.dropLast_concat_getLast h
  calc replaceLast value values
      = replaceLast value (values.dropLast ++ [values.getLast h]) := by rw [hvalues]
    _ = values.dropLast ++ [value] := replaceLast_append_singleton value _ _

/-- The three ways in which an open outbox takes a value. -/
inductive Accepts (box : Outbox α) (value : α) : Outbox α → Prop where
  | append (h : box.isFull = false ∨ box.rule = .buffer) : box.Accepts value (box.append value)
  | evict (hfull : box.isFull = true) (hrule : box.rule = .dropOldest) :
      box.Accepts value { box with queue := box.queue.tail ++ [value] }
  | overwrite (hfull : box.isFull = true) (hrule : box.rule = .latest) :
      box.Accepts value { box with queue := box.queue.dropLast ++ [value] }

/-- What becomes of a push, with the reasons for it: one rule for each answer. -/
inductive Answers (box : Outbox α) (value : α) : Admission α → Prop where
  | accepted {box' : Outbox α} (hopen : box.isClosed = false) (h : box.Accepts value box') :
      box.Answers value (.accepted box')
  | closed (hclosed : box.isClosed = true) : box.Answers value (.refused .closed)
  | full (hopen : box.isClosed = false) (hfull : box.isFull = true) (hrule : box.rule = .refuse) :
      box.Answers value (.refused (.full box.capacity))
  | waits (hopen : box.isClosed = false) (hfull : box.isFull = true) (hrule : box.rule = .block) :
      box.Answers value .waits

theorem answers_push (box : Outbox α) (value : α) : box.Answers value (box.push value) := by
  unfold push
  split
  case isTrue hclosed => exact .closed hclosed
  case isFalse hopen =>
    have hopen : box.isClosed = false := Bool.eq_false_iff.mpr hopen
    split
    case isTrue hroom =>
      have hroom : box.isFull = false := by simpa using hroom
      exact .accepted hopen (.append (Or.inl hroom))
    case isFalse hfull =>
      have hfull : box.isFull = true := by simpa using hfull
      split
      case h_1 hrule => exact .accepted hopen (.append (Or.inr hrule))
      case h_2 hrule => exact .accepted hopen (.evict hfull hrule)
      case h_3 hrule =>
        rw [replaceLast_eq (ne_nil_of_isFull hfull)]
        exact .accepted hopen (.overwrite hfull hrule)
      case h_4 hrule => exact .full hopen hfull hrule
      case h_5 hrule => exact .waits hopen hfull hrule

lemma accepts_of_push (h : box.push value = .accepted after) :
    box.isClosed = false ∧ box.Accepts value after := by
  have hanswers := box.answers_push value
  rw [h] at hanswers
  cases hanswers with
  | accepted hopen haccepts => exact ⟨hopen, haccepts⟩

/-- A value is refused by a closed outbox, or by a full one whose rule says so. -/
lemma refused_of_push (h : box.push value = .refused reason) :
    (reason = .closed ∧ box.isClosed = true) ∨
      (reason = .full box.capacity ∧ box.isClosed = false ∧ box.isFull = true ∧
        box.rule = .refuse) := by
  have hanswers := box.answers_push value
  rw [h] at hanswers
  cases hanswers with
  | closed hclosed => exact Or.inl ⟨rfl, hclosed⟩
  | full hopen hfull hrule => exact Or.inr ⟨rfl, hopen, hfull, hrule⟩

lemma closed_of_refused (h : box.push value = .refused reason) (hrule : box.rule ≠ .refuse) :
    reason = .closed ∧ box.isClosed = true := by
  rcases refused_of_push h with hclosed | ⟨-, -, -, hrefuse⟩
  · exact hclosed
  · exact absurd hrefuse hrule

lemma waits_of_push (h : box.push value = .waits) :
    box.isClosed = false ∧ box.isFull = true ∧ box.rule = .block := by
  have hanswers := box.answers_push value
  rw [h] at hanswers
  cases hanswers with
  | waits hopen hfull hrule => exact ⟨hopen, hfull, hrule⟩

/-- An open outbox takes every value unless its rule refuses some or has them wait. -/
lemma exists_accepted (hopen : box.isClosed = false) (hrefuse : box.rule ≠ .refuse)
    (hblock : box.rule ≠ .block) (value : α) : ∃ after, box.push value = .accepted after := by
  cases hpush : box.push value with
  | accepted after => exact ⟨after, rfl⟩
  | refused reason =>
    have hclosed := (closed_of_refused hpush hrefuse).2
    rw [hopen] at hclosed
    cases hclosed
  | waits => exact absurd (waits_of_push hpush).2.2 hblock

section Accepts

variable (h : box.Accepts value after)
include h

lemma Accepts.capacity_eq : after.capacity = box.capacity := by
  cases h <;> rfl

lemma Accepts.rule_eq : after.rule = box.rule := by
  cases h <;> rfl

/-- The value comes last, and the outbox has nothing new but this value. -/
lemma Accepts.exists_front : ∃ front, front.Sublist box.queue ∧ after.queue = front ++ [value] := by
  cases h with
  | append => exact ⟨box.queue, List.Sublist.refl _, rfl⟩
  | evict => exact ⟨box.queue.tail, List.tail_sublist _, rfl⟩
  | overwrite => exact ⟨box.queue.dropLast, List.dropLast_sublist _, rfl⟩

lemma Accepts.size_le (hrule : box.rule ≠ .buffer) (hsize : box.size ≤ box.capacity) :
    after.size ≤ after.capacity := by
  unfold size at hsize
  cases h with
  | append hroom =>
    have hfree : ¬ box.capacity ≤ box.queue.length :=
      of_decide_eq_false (hroom.resolve_right hrule)
    simp only [Outbox.append, size, List.length_append, List.length_singleton]
    omega
  | evict hfull =>
    have hpos := List.length_pos_iff.mpr (ne_nil_of_isFull hfull)
    simp only [size, List.length_append, List.length_tail, List.length_singleton]
    omega
  | overwrite hfull =>
    have hpos := List.length_pos_iff.mpr (ne_nil_of_isFull hfull)
    simp only [size, List.length_append, List.length_dropLast, List.length_singleton]
    omega

/-- Without a rule that gives up values the new one is appended. -/
lemma Accepts.eq_append (hdrop : box.rule ≠ .dropOldest) (hlatest : box.rule ≠ .latest) :
    after = box.append value := by
  cases h with
  | append => rfl
  | evict _ hrule => exact absurd hrule hdrop
  | overwrite _ hrule => exact absurd hrule hlatest

lemma Accepts.of_block (hrule : box.rule = .block) :
    box.isFull = false ∧ after = box.append value := by
  cases h with
  | append hroom => exact ⟨hroom.resolve_right (by simp [hrule]), rfl⟩
  | evict _ hother | overwrite _ hother => simp [hrule] at hother

end Accepts

end Outbox

/-- What an outbox is asked for. -/
inductive Request (α : Type) where
  | push (value : α)
  | pop
  | close

/-- An outbox and what has gone through it, the oldest first. -/
structure Account (α : Type) where
  box : Outbox α
  accepted : List α := []
  taken : List α := []
  /-- How many of the accepted values found the outbox full. -/
  crowded : Nat := 0

namespace Account

variable {α β : Type} {a b : Account α} {request : Request α}

def create (capacity : Nat) (rule : Overflow) : Account α := { box := .create capacity rule }

/-- The values that have not been given up: those that were taken and those that still can be. -/
def kept (a : Account α) : List α := a.taken ++ a.box.queue

/-- The account after a request. A value that is refused or has to wait leaves no trace. -/
def serve (a : Account α) : Request α → Account α
  | .push value =>
    match a.box.push value with
    | .accepted box =>
      { a with
        box
        accepted := a.accepted ++ [value]
        crowded := a.crowded + if a.box.isFull then 1 else 0 }
    | _ => a
  | .pop =>
    match a.box.pop with
    | some (value, box) => { a with box, taken := a.taken ++ [value] }
    | none => a
  | .close => { a with box := a.box.close }

def serveAll (a : Account α) (requests : List (Request α)) : Account α := requests.foldl serve a

/-- What a request does to an account: one rule for each of the ways it can go. -/
inductive Serves (a : Account α) : Request α → Account α → Prop where
  | accept {value after} (hopen : a.box.isClosed = false) (h : a.box.Accepts value after) :
      a.Serves (.push value) { a with
        box := after
        accepted := a.accepted ++ [value]
        crowded := a.crowded + if a.box.isFull then 1 else 0 }
  | decline {value} (h : ∀ after, a.box.push value ≠ .accepted after) : a.Serves (.push value) a
  | give {value rest} (h : a.box.queue = value :: rest) :
      a.Serves .pop { a with
        box := { a.box with queue := rest }
        taken := a.taken ++ [value] }
  | lack (h : a.box.queue = []) : a.Serves .pop a
  | close : a.Serves .close { a with box := a.box.close }

section Serve

variable {value : α} {rest : List α} {after : Outbox α}

lemma serve_push_of_accepted (h : a.box.push value = .accepted after) :
    a.serve (.push value) = { a with
      box := after
      accepted := a.accepted ++ [value]
      crowded := a.crowded + if a.box.isFull then 1 else 0 } := by
  simp only [serve, h]

lemma serve_push_of_declined (h : ∀ after, a.box.push value ≠ .accepted after) :
    a.serve (.push value) = a := by
  cases hpush : a.box.push value with
  | accepted after => exact absurd hpush (h after)
  | refused | waits => simp only [serve, hpush]

lemma serve_pop_of_cons (h : a.box.queue = value :: rest) :
    a.serve .pop = { a with
      box := { a.box with queue := rest }
      taken := a.taken ++ [value] } := by
  simp only [serve, Outbox.pop, h]

lemma serve_pop_of_nil (h : a.box.queue = []) : a.serve .pop = a := by
  simp only [serve, Outbox.pop, h]

end Serve

theorem serves_serve (a : Account α) (request : Request α) :
    a.Serves request (a.serve request) := by
  cases request with
  | push value =>
    by_cases hpush : ∃ after, a.box.push value = .accepted after
    · obtain ⟨after, hpush⟩ := hpush
      obtain ⟨hopen, haccepts⟩ := Outbox.accepts_of_push hpush
      rw [serve_push_of_accepted hpush]
      exact .accept hopen haccepts
    · have hdeclined := not_exists.mp hpush
      rw [serve_push_of_declined hdeclined]
      exact .decline hdeclined
  | pop =>
    cases hqueue : a.box.queue with
    | nil =>
      rw [serve_pop_of_nil hqueue]
      exact .lack hqueue
    | cons value rest =>
      rw [serve_pop_of_cons hqueue]
      exact .give hqueue
  | close => exact .close

lemma serveAll_append (a : Account α) (first rest : List (Request α)) :
    a.serveAll (first ++ rest) = (a.serveAll first).serveAll rest :=
  List.foldl_append

/-- What every request preserves holds after any number of them. -/
theorem serveAll_induction {P : Account α → Prop} (hstep : ∀ a request, P a → P (a.serve request))
    (ha : P a) (requests : List (Request α)) : P (a.serveAll requests) :=
  List.foldlRecOn (motive := P) requests _ ha fun a ha request _ => hstep a request ha

section Serves

variable (h : a.Serves request b)
include h

lemma Serves.capacity_eq : b.box.capacity = a.box.capacity := by
  cases h with
  | accept _ haccepts => exact haccepts.capacity_eq
  | decline | give | lack | close => rfl

lemma Serves.rule_eq : b.box.rule = a.box.rule := by
  cases h with
  | accept _ haccepts => exact haccepts.rule_eq
  | decline | give | lack | close => rfl

/-- A value is accepted and kept as the last one, or nothing changes hands but from the outbox to
whoever takes it. -/
lemma Serves.kept_cases : (b.kept = a.kept ∧ b.accepted = a.accepted) ∨
    ∃ value front, front.Sublist a.kept ∧ b.kept = front ++ [value] ∧
      b.accepted = a.accepted ++ [value] := by
  cases h with
  | @accept value after _ haccepts =>
    obtain ⟨front, hfront, hqueue⟩ := haccepts.exists_front
    refine Or.inr ⟨value, a.taken ++ front, List.Sublist.append_left hfront _, ?_, rfl⟩
    simp only [kept, hqueue, List.append_assoc]
  | give hqueue =>
    left
    simp [kept, hqueue]
  | decline | lack | close => exact Or.inl ⟨rfl, rfl⟩

/-- What is kept is part of what was accepted, in the same order. -/
lemma Serves.kept_sublist (ha : a.kept.Sublist a.accepted) : b.kept.Sublist b.accepted := by
  rcases h.kept_cases with ⟨hkept, haccepted⟩ | ⟨value, front, hfront, hkept, haccepted⟩
  · rw [hkept, haccepted]
    exact ha
  · rw [hkept, haccepted]
    exact List.Sublist.append_right (hfront.trans ha) _

/-- The last value that was accepted is kept. -/
lemma Serves.getLast?_kept (ha : a.kept.getLast? = a.accepted.getLast?) :
    b.kept.getLast? = b.accepted.getLast? := by
  rcases h.kept_cases with ⟨hkept, haccepted⟩ | ⟨value, front, -, hkept, haccepted⟩
  · rw [hkept, haccepted]
    exact ha
  · rw [hkept, haccepted, List.getLast?_concat, List.getLast?_concat]

lemma Serves.size_le (hrule : a.box.rule ≠ .buffer) (ha : a.box.size ≤ a.box.capacity) :
    b.box.size ≤ b.box.capacity := by
  cases h with
  | accept _ haccepts => exact haccepts.size_le hrule ha
  | give hqueue =>
    unfold Outbox.size at ha ⊢
    rw [hqueue, List.length_cons] at ha
    exact Nat.le_of_succ_le ha
  | decline | lack | close => exact ha

/-- Without a rule that gives up values all that was accepted is kept. -/
lemma Serves.kept_eq (hdrop : a.box.rule ≠ .dropOldest) (hlatest : a.box.rule ≠ .latest)
    (ha : a.kept = a.accepted) : b.kept = b.accepted := by
  cases h with
  | @accept value after _ haccepts =>
    rw [haccepts.eq_append hdrop hlatest]
    change a.taken ++ (a.box.queue ++ [value]) = a.accepted ++ [value]
    rw [← List.append_assoc, ← ha, kept]
  | give hqueue =>
    rw [← ha]
    simp [kept, hqueue]
  | decline | lack | close => exact ha

/-- A closed outbox stays closed and accepts nothing. -/
lemma Serves.of_closed (ha : a.box.isClosed = true) :
    b.box.isClosed = true ∧ b.accepted = a.accepted ∧ b.kept = a.kept := by
  cases h with
  | accept hopen =>
    rw [hopen] at ha
    cases ha
  | give hqueue => exact ⟨ha, rfl, by simp [kept, hqueue]⟩
  | decline | lack => exact ⟨ha, rfl, rfl⟩
  | close => exact ⟨rfl, rfl, rfl⟩

/-- What was taken is never taken back. -/
lemma Serves.exists_taken : ∃ out, b.taken = a.taken ++ out := by
  cases h with
  | give => exact ⟨_, rfl⟩
  | accept | decline | lack | close => exact ⟨[], (List.append_nil _).symm⟩

end Serves

lemma capacity_serveAll (a : Account α) (requests : List (Request α)) :
    (a.serveAll requests).box.capacity = a.box.capacity :=
  serveAll_induction (P := fun b => b.box.capacity = a.box.capacity)
    (fun b request hb => (b.serves_serve request).capacity_eq.trans hb) rfl requests

lemma rule_serveAll (a : Account α) (requests : List (Request α)) :
    (a.serveAll requests).box.rule = a.box.rule :=
  serveAll_induction (P := fun b => b.box.rule = a.box.rule)
    (fun b request hb => (b.serves_serve request).rule_eq.trans hb) rfl requests

/-- What every request preserves under one rule, as the outbox keeps its rule. -/
theorem serveAll_induction_of_rule {P : Account α → Prop}
    (hstep : ∀ b request c, Serves b request c → b.box.rule = a.box.rule → P b → P c)
    (ha : P a) (requests : List (Request α)) : P (a.serveAll requests) := by
  have hserved := serveAll_induction (P := fun b => b.box.rule = a.box.rule ∧ P b)
    (fun b request hb => by
      have hserves := b.serves_serve request
      exact ⟨hserves.rule_eq.trans hb.1, hstep b request _ hserves hb.1 hb.2⟩)
    ⟨rfl, ha⟩ requests
  exact hserved.2

theorem kept_sublist_serveAll (ha : a.kept.Sublist a.accepted) (requests : List (Request α)) :
    (a.serveAll requests).kept.Sublist (a.serveAll requests).accepted :=
  serveAll_induction (P := fun b => b.kept.Sublist b.accepted)
    (fun b request => (b.serves_serve request).kept_sublist) ha requests

theorem getLast?_kept_serveAll (ha : a.kept.getLast? = a.accepted.getLast?)
    (requests : List (Request α)) :
    (a.serveAll requests).kept.getLast? = (a.serveAll requests).accepted.getLast? :=
  serveAll_induction (P := fun b => b.kept.getLast? = b.accepted.getLast?)
    (fun b request => (b.serves_serve request).getLast?_kept) ha requests

/-- Only an outbox that keeps everything outgrows its capacity. -/
theorem size_serveAll_le (hrule : a.box.rule ≠ .buffer) (ha : a.box.size ≤ a.box.capacity)
    (requests : List (Request α)) : (a.serveAll requests).box.size ≤ a.box.capacity := by
  rw [← capacity_serveAll a requests]
  refine serveAll_induction_of_rule (P := fun b => b.box.size ≤ b.box.capacity) ?_ ha requests
  intro b request c hserves hsame hb
  exact hserves.size_le (by rwa [hsame]) hb

theorem kept_serveAll_eq (hdrop : a.box.rule ≠ .dropOldest) (hlatest : a.box.rule ≠ .latest)
    (ha : a.kept = a.accepted) (requests : List (Request α)) :
    (a.serveAll requests).kept = (a.serveAll requests).accepted := by
  refine serveAll_induction_of_rule (P := fun b => b.kept = b.accepted) ?_ ha requests
  intro b request c hserves hsame hb
  exact hserves.kept_eq (by rwa [hsame]) (by rwa [hsame]) hb

lemma exists_taken_serveAll (a : Account α) (requests : List (Request α)) :
    ∃ out, (a.serveAll requests).taken = a.taken ++ out :=
  serveAll_induction (P := fun b => ∃ out, b.taken = a.taken ++ out)
    (fun b request hb => by
      obtain ⟨out, hout⟩ := hb
      obtain ⟨more, hmore⟩ := (b.serves_serve request).exists_taken
      exact ⟨out ++ more, by rw [hmore, hout, List.append_assoc]⟩)
    ⟨[], (List.append_nil _).symm⟩ requests

/-- After the outbox is closed, nothing is accepted, and nothing is lost. -/
theorem serveAll_of_closed (ha : a.box.isClosed = true) (requests : List (Request α)) :
    (a.serveAll requests).box.isClosed = true ∧
      (a.serveAll requests).accepted = a.accepted ∧ (a.serveAll requests).kept = a.kept :=
  serveAll_induction
    (P := fun b => b.box.isClosed = true ∧ b.accepted = a.accepted ∧ b.kept = a.kept)
    (fun b request hb => by
      obtain ⟨hclosed, haccepted, hkept⟩ := (b.serves_serve request).of_closed hb.1
      exact ⟨hclosed, haccepted.trans hb.2.1, hkept.trans hb.2.2⟩)
    ⟨ha, rfl, rfl⟩ requests

/-- What a closed outbox holds is given away in order. -/
theorem exists_given_of_closed (ha : a.box.isClosed = true) (requests : List (Request α)) :
    ∃ out, (a.serveAll requests).taken = a.taken ++ out ∧
      out ++ (a.serveAll requests).box.queue = a.box.queue := by
  obtain ⟨out, hout⟩ := exists_taken_serveAll a requests
  obtain ⟨-, -, hkept⟩ := serveAll_of_closed ha requests
  rw [kept, kept, hout, List.append_assoc] at hkept
  exact ⟨out, hout, List.append_cancel_left hkept⟩

end Account

/-! An outbox does not look at its values, so they may carry marks that tell one from another. -/

section Marks

variable {α β : Type}

def Outbox.map (f : α → β) (box : Outbox α) : Outbox β where
  capacity := box.capacity
  capacity_pos := box.capacity_pos
  rule := box.rule
  queue := box.queue.map f
  isClosed := box.isClosed

def Admission.map (f : α → β) : Admission α → Admission β
  | .accepted after => .accepted (after.map f)
  | .refused reason => .refused reason
  | .waits => .waits

def Request.map (f : α → β) : Request α → Request β
  | .push value => .push (f value)
  | .pop => .pop
  | .close => .close

def Account.map (f : α → β) (a : Account α) : Account β where
  box := a.box.map f
  accepted := a.accepted.map f
  taken := a.taken.map f
  crowded := a.crowded

namespace Outbox

lemma map_replaceLast (f : α → β) (value : α) (values : List α) :
    (replaceLast value values).map f = replaceLast (f value) (values.map f) := by
  fun_induction replaceLast value values with
  | case1 => rfl
  | case2 => rfl
  | case3 a b rest ih => simpa [replaceLast] using ih

@[simp] lemma isClosed_map (f : α → β) (box : Outbox α) : (box.map f).isClosed = box.isClosed :=
  rfl

@[simp] lemma rule_map (f : α → β) (box : Outbox α) : (box.map f).rule = box.rule := rfl

@[simp] lemma capacity_map (f : α → β) (box : Outbox α) : (box.map f).capacity = box.capacity :=
  rfl

@[simp] lemma size_map (f : α → β) (box : Outbox α) : (box.map f).size = box.size :=
  List.length_map f

@[simp] lemma isFull_map (f : α → β) (box : Outbox α) : (box.map f).isFull = box.isFull := by
  unfold isFull
  rw [size_map, capacity_map]

lemma map_append (f : α → β) (box : Outbox α) (value : α) :
    (box.append value).map f = (box.map f).append (f value) := by
  simp only [map, append, List.map_append, List.map_singleton]

theorem push_map (f : α → β) (box : Outbox α) (value : α) :
    (box.map f).push (f value) = (box.push value).map f := by
  unfold push
  rw [isFull_map, isClosed_map, rule_map]
  split
  · rfl
  · split
    · exact congrArg Admission.accepted (box.map_append f value).symm
    · split
      · exact congrArg Admission.accepted (box.map_append f value).symm
      · simp [Admission.map, map, List.map_tail]
      · simp [Admission.map, map, map_replaceLast]
      · rfl
      · rfl

/-- A marked value is accepted when the plain one is, and leaves the same outbox behind. -/
lemma exists_accepted_of_map {f : α → β} {box : Outbox α} {value : α} {after : Outbox β}
    (h : (box.map f).push (f value) = .accepted after) :
    ∃ marked, box.push value = .accepted marked ∧ marked.map f = after := by
  rw [push_map] at h
  cases hpush : box.push value with
  | accepted marked =>
    rw [hpush] at h
    exact ⟨marked, rfl, Admission.accepted.inj h⟩
  | refused | waits =>
    rw [hpush] at h
    cases h

theorem pop_map (f : α → β) (box : Outbox α) :
    (box.map f).pop = box.pop.map fun (value, after) => (f value, after.map f) := by
  simp only [pop, map]
  cases box.queue with
  | nil => rfl
  | cons value rest => rfl

end Outbox

namespace Account

theorem serve_map (f : α → β) (a : Account α) (request : Request α) :
    (a.map f).serve (request.map f) = (a.serve request).map f := by
  cases request with
  | push value =>
    have hpush : (a.map f).box.push (f value) = (a.box.push value).map f := a.box.push_map f value
    have hfull : (a.map f).box.isFull = a.box.isFull := a.box.isFull_map f
    unfold Request.map serve
    dsimp only
    simp only [hpush, hfull]
    cases a.box.push value with
    | accepted after => simp [Admission.map, map]
    | refused | waits => rfl
  | pop =>
    have hpop : (a.map f).box.pop = _ := a.box.pop_map f
    unfold Request.map serve
    dsimp only
    rw [hpop]
    cases a.box.pop with
    | none => rfl
    | some popped => simp [map]
  | close => rfl

theorem serveAll_map (f : α → β) (a : Account α) (requests : List (Request α)) :
    (a.map f).serveAll (requests.map (Request.map f)) = (a.serveAll requests).map f := by
  induction requests generalizing a with
  | nil => rfl
  | cons request rest ih =>
    rw [List.map_cons]
    change ((a.map f).serve (request.map f)).serveAll _ = _
    rw [serve_map, ih]
    rfl

end Account

end Marks

end Redial.Delivery
