import Mathlib.Data.List.Induction
import Redial.Proofs.BudgetAccounts
import Redial.Proofs.Consultations

/-!
# Timetables

The retries of a run keep to the schedule of its plan. The first retry that is told follows the
first attempt and waits for the first delay of the schedule, and so on, whatever the outputs are that
ask for the retries: no delay is left out and none is used twice. The attempts are counted up to the
limit, so the count always fits where it is kept.
-/

namespace Redial

/-- The event about the retry after an attempt. -/
def Notice.retry (attempt : Nat) (delay : Duration) : Notice :=
  { kind := .retryScheduled, attempt := some attempt, delay := some delay }

/-- The retries that were told, in order. -/
def retriesTold (strides : List Stride) : List Notice :=
  strides.filterMap fun
    | .told notice => if notice.kind = .retryScheduled then some notice else none
    | _ => none

lemma retriesTold_concat_cases (strides : List Stride) (stride : Stride) :
    retriesTold (strides ++ [stride]) = retriesTold strides ∨
      ∃ notice, stride = .told notice ∧ notice.kind = .retryScheduled ∧
        retriesTold (strides ++ [stride]) = retriesTold strides ++ [notice] := by
  unfold retriesTold
  rw [List.filterMap_append]
  cases stride with
  | told notice =>
    by_cases hkind : notice.kind = .retryScheduled
    · exact Or.inr ⟨notice, rfl, hkind, by simp [hkind]⟩
    · exact Or.inl (by simp [hkind])
  | _ => exact Or.inl (List.append_nil _)

/-- The number of bodies that came to an end. -/
def bodiesEnded (strides : List Stride) : Nat :=
  strides.countP fun
    | .bodyEnded _ => true
    | _ => false

/-- What a run does about a delay before it goes on. -/
def Manner.pausing (delay : Duration) (next : Course) : Manner → Course
  | blocking => .pause delay next
  | asynchronous => if delay = .zero then next else .await delay next

/-- The attempts of a run, at most so many. -/
def Plan.attempts (plan : Plan) (left : Nat) (p : Progress) : Manner → Course
  | .blocking => .blockingAttempts plan left p
  | .asynchronous => .asyncAttempts plan left p

/-- A run in numbers: the bodies that began, those that ended, and the retries that were told. -/
structure Tally where
  begun : Nat
  ended : Nat
  retries : Nat

namespace Tally

/-- The tally after one more step. -/
def after (n : Tally) : Stride → Tally
  | .bodyBegan => { n with begun := n.begun + 1 }
  | .bodyEnded _ => { n with ended := n.ended + 1 }
  | .told notice =>
    if notice.kind = .retryScheduled then { n with retries := n.retries + 1 } else n
  | _ => n

/-- The tally of some steps. -/
def ofStrides (strides : List Stride) : Tally :=
  ⟨bodiesBegun strides, bodiesEnded strides, (retriesTold strides).length⟩

lemma after_told {notice : Notice} (h : notice.kind ≠ .retryScheduled) (n : Tally) :
    n.after (.told notice) = n :=
  if_neg h

lemma ofStrides_concat (strides : List Stride) (stride : Stride) :
    ofStrides (strides ++ [stride]) = (ofStrides strides).after stride := by
  unfold ofStrides bodiesBegun bodiesEnded retriesTold
  rw [List.countP_append, List.countP_append, List.filterMap_append]
  cases stride with
  | told notice =>
    by_cases hkind : notice.kind = .retryScheduled
    · simp [after, hkind]
    · simp [after, hkind]
  | _ => simp [after]

end Tally

/-- Wherever the course tells of an event, `P` holds of the tally, of the event and of the course
behind it. -/
def Course.Vouches (P : Tally → Notice → Course → Prop) : Course → Tally → Prop
  | finished, _ | panics _, _ => True
  | start next, n => ∀ won, (next won).Vouches P n
  | askDisposed next, n => ∀ disposed, (next disposed).Vouches P n
  | report notice next, n => P n notice next ∧ next.Vouches P (n.after (.told notice))
  | invoke next, n =>
    ∀ output, (next output).Vouches P ((n.after .bodyBegan).after (.bodyEnded output))
  | dispatch next, n =>
    (next none).Vouches P n ∧
      ∀ output, (next (some output)).Vouches P ((n.after .bodyBegan).after (.bodyEnded output))
  | consult _ next, n => ∀ again, (next again).Vouches P n
  | readClock next, n => ∀ now, (next now).Vouches P n
  | sleep _ next, n | await _ next, n | callback _ next, n => next.Vouches P n
  | push _ next, n => ∀ answer, (next answer).Vouches P n
  | pop next, n => ∀ verdict, (next verdict).Vouches P n

namespace Standing

variable {P : Tally → Notice → Course → Prop} {n : Tally}

/-- `Course.Vouches` of what is left of a run. -/
def Vouches (P : Tally → Notice → Course → Prop) : Standing → Tally → Prop
  | before course, n => course.Vouches P n
  | inBody next, n => ∀ output, (next output).Vouches P (n.after (.bodyEnded output))
  | inPredicate next, n => ∀ again, (next again).Vouches P n
  | inCallback next, n => next.Vouches P n

lemma Leads.vouches {s t : Standing} {stride : Stride} (h : s.Leads stride t) (hs : s.Vouches P n) :
    t.Vouches P (n.after stride) := by
  cases h with
  | start won => exact hs won
  | look disposed => exact hs disposed
  | tell notice => exact hs.2
  | enterBody => exact hs
  | sendBody => exact hs.2
  | refuseBody => exact hs.1
  | leaveBody output => exact hs output
  | leavePredicate again => exact hs again
  | readClock now => exact hs now
  | push _ answer => exact hs answer
  | pop verdict => exact hs verdict
  | sleep | wait | enterPredicate | enterCallback | missCallback | leaveCallback => exact hs

end Standing

namespace Race

variable {P : Tally → Notice → Course → Prop} {r t : Race} {front : List Stride} {notice : Notice}

lemma exists_last_of_follow {front : List Stride} {stride : Stride}
    (h : r.follow (front ++ [stride]) = some t) :
    ∃ q, r.follow front = some q ∧ q.step stride = some t := by
  rw [follow_append] at h
  obtain ⟨q, hq, hlast⟩ := Option.bind_eq_some_iff.mp h
  obtain ⟨s, hstep, hs⟩ := follow_cons_eq_some hlast
  cases hs
  exact ⟨q, hq, hstep⟩

lemma vouches_of_step {n : Tally} {stride : Stride} (h : r.step stride = some t)
    (hr : r.standing.Vouches P n) : t.standing.Vouches P (n.after stride) := by
  rcases step_cases h with ⟨thread, shared, rfl, -, rfl⟩ | ⟨hlead, -⟩
  · exact hr
  · exact hlead.vouches hr

/-- What a course tells wherever it tells of an event, it tells along every race. -/
theorem vouches_of_follow {strides : List Stride} (h : r.follow strides = some t)
    (hr : r.standing.Vouches P (.ofStrides [])) : t.standing.Vouches P (.ofStrides strides) := by
  induction strides using List.reverseRecOn generalizing t with
  | nil =>
    cases h
    exact hr
  | append_singleton strides stride ih =>
    obtain ⟨q, hq, hstep⟩ := exists_last_of_follow h
    rw [Tally.ofStrides_concat]
    exact vouches_of_step hstep (ih hq)

/-- An event that has just been told. -/
lemma told_of_follow (h : r.follow (front ++ [.told notice]) = some t)
    (hr : r.standing.Vouches P (.ofStrides [])) :
    ∃ next, t.standing = .before next ∧ P (.ofStrides front) notice next := by
  obtain ⟨q, hq, hstep⟩ := exists_last_of_follow h
  have hvouches := vouches_of_follow hq hr
  rcases step_cases hstep with ⟨_, _, hother, -, -⟩ | ⟨hlead, -⟩
  · cases hother
  · generalize q.standing = before, t.standing = behind at hlead hvouches
    cases hlead with
    | @tell next => exact ⟨next, rfl, hvouches.1⟩

end Race

/-- The event names no attempt beyond the limit. If it tells of a retry, this is the retry after the
attempt that has just ended, it has the delay of the schedule for this retry, and the run pauses for
that delay before its next attempt. -/
structure Plan.OnTime (plan : Plan) (manner : Manner) (n : Tally) (notice : Notice)
    (next : Course) : Prop where
  attempt : ∀ k, notice.attempt = some k → k ≤ plan.limit.maxAttempts
  retry : notice.kind = .retryScheduled → ∃ p delay, p.attempt = n.retries + 1 ∧
    n.begun = p.attempt ∧ n.ended = p.attempt ∧ p.attempt ≤ plan.limit.retries ∧
    plan.backoff.delay n.retries (plan.draws n.retries) = .ok delay ∧
    notice = .retry p.attempt delay ∧
    next = manner.pausing delay (plan.attempts (plan.limit.maxAttempts - p.attempt) p manner)

/-- Another attempt means a pause of the right length and then the rest of the attempts, in which
all is on time. -/
def Plan.Resumes (plan : Plan) (manner : Manner) (k : Nat) (retry : Progress → Duration → Course) :
    Prop :=
  ∀ q delay, q.attempt = k → k < plan.limit.maxAttempts →
    retry q delay = manner.pausing delay (plan.attempts (plan.limit.maxAttempts - k) q manner) ∧
      (retry q delay).Vouches (plan.OnTime manner) ⟨k, k, k⟩

lemma Plan.delay_of_nextAttempt {plan : Plan} {p : Progress} {delay : Duration}
    (h : plan.nextAttempt p = .again delay) :
    plan.backoff.delay p.retryIndex (plan.draws p.retryIndex) = .ok delay := by
  unfold nextAttempt at h
  split at h
  · cases h
  · rename_i found hfound
    cases h
    exact hfound

namespace Course

section Pauses

variable {P : Tally → Notice → Course → Prop} {n : Tally} {next : Course}

lemma vouches_pauseUntil (h : next.Vouches P n) (deadline looks : Nat) :
    (pauseUntil deadline next looks).Vouches P n := by
  induction looks with
  | zero => exact h
  | succ looks ih =>
    intro disposed
    cases disposed with
    | true => exact h
    | false =>
      intro now
      dsimp only
      split
      · exact h
      · exact ih

lemma vouches_pause (h : next.Vouches P n) (delay : Duration) : (pause delay next).Vouches P n := by
  intro now
  dsimp only
  split
  · exact vouches_pauseUntil h _ _
  · trivial

lemma vouches_pausing (h : next.Vouches P n) (delay : Duration) (manner : Manner) :
    (manner.pausing delay next).Vouches P n := by
  cases manner with
  | blocking => exact vouches_pause h delay
  | asynchronous =>
    unfold Manner.pausing
    dsimp only
    split
    · exact h
    · exact h

end Pauses

variable {plan : Plan} {manner : Manner} {p : Progress} {n : Tally} {next : Course}

/-- Any event but that of a retry is on time. -/
lemma vouches_notice {notice : Notice} (hp : p.attempt ≤ plan.limit.maxAttempts)
    (hattempt : notice.attempt = if p.attempt = 0 then none else some p.attempt)
    (hkind : notice.kind ≠ .retryScheduled) (h : next.Vouches (plan.OnTime manner) n) :
    (report notice next).Vouches (plan.OnTime manner) n := by
  refine ⟨⟨fun k hk => ?_, fun hretry => absurd hretry hkind⟩, ?_⟩
  · rw [hattempt] at hk
    obtain ⟨-, hk⟩ := Option.ite_none_left_eq_some.mp hk
    cases hk
    exact hp
  · rw [Tally.after_told hkind]
    exact h

lemma vouches_drain (hp : p.attempt ≤ plan.limit.maxAttempts) (held : Nat) :
    (drain p held).Vouches (plan.OnTime manner) n := by
  induction held with
  | zero => trivial
  | succ held ih =>
    intro oldest
    cases oldest with
    | none => trivial
    | some verdict =>
      intro disposed
      cases disposed with
      | true => exact vouches_notice hp rfl nofun ih
      | false =>
        cases verdict with
        | success | failure => exact vouches_notice hp rfl nofun ih

lemma vouches_deliver (hp : p.attempt ≤ plan.limit.maxAttempts) (verdict : Verdict) :
    (deliver p verdict).Vouches (plan.OnTime manner) n := by
  intro disposed
  cases disposed with
  | true => exact vouches_notice hp rfl nofun trivial
  | false =>
    intro answer
    cases answer with
    | error reason => exact vouches_notice hp rfl nofun trivial
    | ok held => exact vouches_drain hp held

variable {k : Nat} {retry : Progress → Duration → Course}

/-- The retry that a run has decided on is on time. -/
lemma vouches_settlement {q : Progress} (hp : p.attempt = k + 1) (hq : q.attempt = k + 1)
    (hlimit : k < plan.limit.maxAttempts) (hretry : plan.Resumes manner (k + 1) retry)
    (inBudget accepted : Bool) (output : Output) :
    ((plan.judge p inBudget accepted output).course q retry deliver).Vouches
      (plan.OnTime manner) ⟨k + 1, k + 1, k⟩ := by
  cases hsettled : plan.judge p inBudget accepted output with
  | done verdict => exact vouches_deliver (hq ▸ hlimit) verdict
  | panics text => trivial
  | again delay =>
    obtain ⟨hagain, hmay⟩ := Plan.again_of_judge hsettled
    have hlt : k + 1 < plan.limit.maxAttempts := hp ▸ Progress.attempt_lt hmay
    have hmost : k + 1 ≤ plan.limit.retries := Nat.le_of_lt_succ hlt
    obtain ⟨hcourse, hrest⟩ := hretry q delay hq hlt
    have hdelay := Plan.delay_of_nextAttempt hagain
    rw [Progress.retryIndex_eq (hp ▸ hmost), hp, Nat.add_sub_cancel] at hdelay
    have hnotice : { q.notice .retryScheduled with delay := some delay } =
        Notice.retry (k + 1) delay := by
      unfold Progress.notice Notice.retry
      rw [hq, if_neg k.succ_ne_zero]
    unfold Settlement.course
    dsimp only
    rw [hnotice]
    refine ⟨⟨fun j hj => ?_, fun _ => ?_⟩, hrest⟩
    · cases hj
      exact Nat.le_of_lt hlt
    · refine ⟨q, delay, hq, hq.symm, hq.symm, hq ▸ hmost, hdelay, ?_, ?_⟩
      · rw [hq]
      · rw [hq, hcourse]

/-- An attempt whose body has come to an end. -/
lemma vouches_settle (hp : p.attempt = k + 1) (hlimit : k < plan.limit.maxAttempts)
    (hretry : plan.Resumes manner (k + 1) retry) (output : Output) :
    (settle plan p output retry deliver).Vouches (plan.OnTime manner) ⟨k + 1, k + 1, k⟩ := by
  have hq : (p.charge plan output).attempt = k + 1 := by rw [Progress.attempt_charge, hp]
  have hgoes (accepted : Bool) : ((plan.settlement p accepted output).course (p.charge plan output)
      retry deliver).Vouches (plan.OnTime manner) ⟨k + 1, k + 1, k⟩ :=
    vouches_settlement hp hq hlimit hretry _ accepted output
  rw [settle_eq]
  cases output with
  | ok result =>
    unfold announce
    dsimp only
    split
    · exact hgoes true
    · exact vouches_notice (hq ▸ hlimit) rfl nofun (hgoes true)
  | error fault =>
    refine vouches_notice (hp ▸ hlimit) rfl nofun ?_
    unfold judgeFault
    split
    · exact hgoes _
    · exact fun accepted => hgoes accepted

/-- The attempts that are left, when as many retries were told as there were attempts. -/
lemma vouches_attempts (left : Nat) (hleft : p.attempt + left = plan.limit.maxAttempts) :
    (plan.attempts left p manner).Vouches (plan.OnTime manner)
      ⟨p.attempt, p.attempt, p.attempt⟩ := by
  induction left generalizing p with
  | zero => cases manner <;> trivial
  | succ left ih =>
    have hlimit : p.attempt < plan.limit.maxAttempts := by omega
    have hrest : plan.limit.maxAttempts - (p.attempt + 1) = left := by omega
    -- This retry is told once, and so there is one for each attempt again.
    have hretry : plan.Resumes manner (p.attempt + 1) fun q delay =>
        manner.pausing delay (plan.attempts left q manner) := by
      intro q delay hq _
      refine ⟨by rw [hrest], vouches_pausing ?_ delay manner⟩
      rw [← hq]
      exact ih (by omega)
    have hbegun : p.begin.attempt ≤ plan.limit.maxAttempts := hlimit
    have hsettle := vouches_settle (p := p.begin) rfl hlimit hretry
    cases manner with
    | blocking =>
      intro disposed
      cases disposed with
      | true => exact vouches_notice (Nat.le_of_lt hlimit) rfl nofun trivial
      | false => exact vouches_notice hbegun rfl nofun hsettle
    | asynchronous =>
      intro disposed
      cases disposed with
      | true => exact vouches_notice (Nat.le_of_lt hlimit) rfl nofun trivial
      | false =>
        exact vouches_notice hbegun rfl nofun ⟨vouches_notice hbegun rfl nofun trivial, hsettle⟩

/-- All that a run tells is on time. -/
theorem vouches_course (plan : Plan) (manner : Manner) :
    (plan.course manner).Vouches (plan.OnTime manner) ⟨0, 0, 0⟩ := by
  have hattempts : (plan.attempts plan.limit.maxAttempts (.start plan.limit) manner).Vouches
      (plan.OnTime manner) ⟨0, 0, 0⟩ := vouches_attempts _ (Nat.zero_add _)
  cases manner with
  | blocking | asynchronous =>
    intro started
    cases started with
    | true => exact hattempts
    | false => trivial

end Course

namespace Race

variable {plan : Plan} {manner : Manner} {shared : SharedHandle} {t : Race}

lemma onTime_of_follow {front : List Stride} {notice : Notice}
    (h : (begin plan manner shared).follow (front ++ [.told notice]) = some t) :
    ∃ next, t.standing = .before next ∧ plan.OnTime manner (.ofStrides front) notice next :=
  told_of_follow h (Course.vouches_course plan manner)

/-- Every event that a run has told was the last one at some time. -/
lemma begin_of_told {strides : List Stride} {notice : Notice}
    (h : (begin plan manner shared).follow strides = some t) (htold : .told notice ∈ strides) :
    ∃ front s, (begin plan manner shared).follow (front ++ [.told notice]) = some s := by
  obtain ⟨front, rest, rfl⟩ := List.append_of_mem htold
  rw [List.append_cons, follow_append] at h
  obtain ⟨s, hs, -⟩ := Option.bind_eq_some_iff.mp h
  exact ⟨front, s, hs⟩

/-- The retries told so far are the first ones of the schedule. -/
lemma retry_of_follow {strides : List Stride}
    (h : (begin plan manner shared).follow strides = some t) {i : Nat} {notice : Notice}
    (hi : (retriesTold strides)[i]? = some notice) :
    i < plan.limit.retries ∧
      ∃ delay, plan.backoff.delay i (plan.draws i) = .ok delay ∧ notice = .retry (i + 1) delay := by
  induction strides using List.reverseRecOn generalizing t with
  | nil => cases hi
  | append_singleton front stride ih =>
    obtain ⟨s, hs, -⟩ := exists_last_of_follow h
    rcases retriesTold_concat_cases front stride with hsame | ⟨last, rfl, hkind, hlast⟩
    · exact ih hs (hsame ▸ hi)
    · rw [hlast] at hi
      have hle : i ≤ (retriesTold front).length := by
        have hbound := (List.getElem?_eq_some_iff.mp hi).1
        rw [List.length_append] at hbound
        exact Nat.le_of_lt_succ hbound
      rcases Nat.lt_or_eq_of_le hle with hlt | rfl
      · exact ih hs (List.getElem?_append_left hlt ▸ hi)
      · obtain ⟨next, -, htime⟩ := onTime_of_follow h
        obtain ⟨p, delay, hp, -, -, hlimit, hdelay, hnotice, -⟩ := htime.retry hkind
        rw [List.getElem?_concat_length] at hi
        cases hi
        rw [hp] at hlimit hnotice
        exact ⟨hlimit, delay, hdelay, hnotice⟩

end Race

end Redial
