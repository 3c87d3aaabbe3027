import Redial.Proofs.Acts
import Redial.Proofs.AttemptCount
import Redial.Proofs.CourseLogic

/-!
# The grammar of events

What a run tells has the form of rounds. Each attempt but the last one tells that it starts, that it
failed or was unsuccessful, and that a retry is scheduled; the last one closes with the only
terminal event. A run whose handle is disposed before its first look tells a single event that names
no attempt.
-/

namespace Redial

open Delivery (Outbox)

/-- The heading of the event that a step tells, if it tells one. -/
def Stride.heading? : Stride → Option Heading
  | .told notice => some (notice.kind, notice.attempt)
  | _ => none

/-- The headings of the events that some steps tell. -/
def headings (strides : List Stride) : List Heading := strides.filterMap Stride.heading?

/-- An attempt came to no good end: it failed, or its result was unsuccessful. -/
def EventKind.IsTrouble (kind : EventKind) : Prop := kind = attemptFailed ∨ kind = resultUnsuccessful

/-- The events of an attempt that leads to another one. -/
def round (n : Nat) (trouble : EventKind) : List Heading :=
  [(.attemptStarting, some n), (trouble, some n), (.retryScheduled, some n)]

/-- The events of successive attempts that all lead to another one, the first of them with number
`n`. -/
def rounds : Nat → List EventKind → List Heading
  | _, [] => []
  | n, trouble :: rest => round n trouble ++ rounds (n + 1) rest

/-- The kinds of events of a last attempt. -/
inductive Closing : List EventKind → Prop where
  | succeeded : Closing [.attemptStarting, .callSucceeded]
  | unsuccessful : Closing [.attemptStarting, .resultUnsuccessful, .callSucceeded]
  | failed : Closing [.attemptStarting, .attemptFailed, .callFailed]
  | suppressed : Closing [.attemptStarting, .deliverySuppressed]
  | suppressedAfter {trouble} (h : trouble.IsTrouble) :
      Closing [.attemptStarting, trouble, .deliverySuppressed]
  | suppressedRetry {trouble} (h : trouble.IsTrouble) :
      Closing [.attemptStarting, trouble, .retryScheduled, .deliverySuppressed]

/-- What a run of at most `most` attempts tells once it has made `n` of them and all led to another
one. -/
inductive Onward (most : Nat) : Nat → List Heading → Prop where
  | suppressed (n : Nat) :
      Onward most n [(.deliverySuppressed, if n = 0 then none else some n)]
  | closing {n kinds} (hn : n < most) (h : Closing kinds) :
      Onward most n (kinds.map (·, some (n + 1)))
  | retried {n trouble rest} (hn : n + 1 < most) (htrouble : trouble.IsTrouble)
      (h : Onward most (n + 1) rest) : Onward most n (round (n + 1) trouble ++ rest)

/-- The attempt before the suppression closes the run, with its retry scheduled in vain. -/
theorem Onward.eq_rounds {most n : Nat} {l : List Heading} (h : Onward most n l) :
    l = [(.deliverySuppressed, if n = 0 then none else some n)] ∨
    ∃ troubles kinds, (∀ kind ∈ troubles, kind.IsTrouble) ∧ Closing kinds ∧
      n + troubles.length < most ∧
      l = rounds (n + 1) troubles ++ kinds.map (·, some (n + 1 + troubles.length)) := by
  induction h with
  | suppressed n => exact Or.inl rfl
  | closing hn hkinds => exact Or.inr ⟨[], _, by simp, hkinds, hn, rfl⟩
  | @retried n trouble rest hn htrouble _ ih =>
    right
    rcases ih with rfl | ⟨troubles, kinds, htroubles, hkinds, hlt, rfl⟩
    · exact ⟨[], _, by simp, .suppressedRetry htrouble, by simp only [List.length_nil]; omega, rfl⟩
    · refine ⟨trouble :: troubles, kinds, ?_, hkinds, ?_, ?_⟩
      · simpa using ⟨htrouble, htroubles⟩
      · simp only [List.length_cons]
        omega
      · have hlast : n + 1 + (troubles.length + 1) = n + 1 + 1 + troubles.length := by omega
        rw [rounds, List.append_assoc, List.length_cons, hlast]

namespace Course

variable {plan : Plan} {p : Progress} {box : Outbox Verdict} {Q : List Heading → Prop}

/-- Looks, sleeps and readings of the clock tell nothing. -/
lemma tells_pauseUntil {next : Course} (h : next.Ensures box fun l => Q (headings l))
    (deadline looks : Nat) : (pauseUntil deadline next looks).Ensures box fun l => Q (headings l) := by
  induction looks with
  | zero => exact h
  | succ looks ih =>
    intro disposed
    cases disposed with
    | true => exact h
    | false =>
      intro now
      dsimp only
      by_cases hnow : deadline ≤ now
      · rw [if_pos hnow]
        exact h
      · rw [if_neg hnow]
        exact ih

lemma tells_pause {next : Course} (h : next.Ensures box fun l => Q (headings l))
    (delay : Duration) : (pause delay next).Ensures box fun l => Q (headings l) := by
  intro now
  dsimp only
  by_cases hnow : now + delay.nanos < clockLimit
  · rw [if_pos hnow]
    exact tells_pauseUntil h (now + delay.nanos) (looksFor delay)
  · rw [if_neg hnow]
    trivial

lemma heading_notice (hp : p.attempt ≠ 0) (kind : EventKind) :
    ((p.notice kind).kind, (p.notice kind).attempt) = (kind, some p.attempt) := by
  simp [Progress.notice, hp]

lemma tells_report {notice : Notice} {heading : Heading} {next : Course}
    (hheading : (notice.kind, notice.attempt) = heading)
    (h : next.Ensures box fun l => Q (heading :: headings l)) :
    (report notice next).Ensures box fun l => Q (headings l) := by
  subst hheading
  exact h

/-- The kind of the event of a verdict that is handed over. -/
def verdictKind : Verdict → EventKind
  | .success _ => .callSucceeded
  | .failure _ => .callFailed

lemma heading_verdictNotice (hp : p.attempt ≠ 0) (verdict : Verdict) :
    ((verdictNotice p verdict).kind, (verdictNotice p verdict).attempt) =
      (verdictKind verdict, some p.attempt) := by
  cases verdict with
  | success => exact heading_notice hp .callSucceeded
  | failure => exact heading_notice hp .callFailed

/-- Delivering tells of the suppression or of the verdict, and of nothing else: the outbox has room
for the verdict and gives it back. -/
lemma tells_deliver (hopen : box.isClosed = false) (hempty : box.queue = []) (hp : p.attempt ≠ 0)
    (verdict : Verdict) (hsuppressed : Q [(.deliverySuppressed, some p.attempt)])
    (hverdict : Q [(verdictKind verdict, some p.attempt)]) :
    (deliver p verdict).Ensures box fun l => Q (headings l) := by
  have hpush := Outbox.push_of_empty hopen hempty verdict
  have hsize : (box.append verdict).size = 1 := by simp [Outbox.size, Outbox.append, hempty]
  have hpop : (box.append verdict).pop = some (verdict, { box.append verdict with queue := [] }) := by
    simp [Outbox.pop, Outbox.append, hempty]
  rw [← heading_notice hp] at hsuppressed
  rw [← heading_verdictNotice hp] at hverdict
  intro disposed
  cases disposed with
  | true => exact hsuppressed
  | false =>
    refine ⟨fun after hafter => ?_, fun reason hreason => ?_⟩
    · rw [hpush] at hafter
      cases hafter
      simp only [hsize]
      refine ⟨fun hnone => ?_, fun oldest rest hsome => ?_⟩
      · rw [hpop] at hnone
        cases hnone
      · rw [hpop] at hsome
        cases hsome
        intro disposed
        cases disposed with
        | true => exact hsuppressed
        | false => exact ⟨hverdict, hverdict⟩
    · rw [hpush] at hreason
      cases hreason

lemma tells_schedule {retry : Duration → Course} (hp : p.attempt ≠ 0)
    (hretry : ∀ delay, (retry delay).Ensures box fun l =>
      Q ((.retryScheduled, some p.attempt) :: headings l)) :
    (schedule plan p retry).Ensures box fun l => Q (headings l) := by
  unfold schedule
  split
  · trivial
  · rw [← heading_notice hp] at hretry
    exact hretry _

lemma tells_judgeFault {next : Bool → Course}
    (hnext : ∀ again, (next again).Ensures box fun l => Q (headings l)) (fault : Fault) :
    (judgeFault plan fault next).Ensures box fun l => Q (headings l) := by
  unfold judgeFault
  split
  · exact hnext _
  · exact hnext

/-- An output either closes the run or is trouble that schedules a retry. -/
lemma tells_settle {retry : Progress → Duration → Course} (hopen : box.isClosed = false)
    (hempty : box.queue = []) (hp : p.attempt ≠ 0)
    (hclose : ∀ kinds, Closing (.attemptStarting :: kinds) → Q (kinds.map (·, some p.attempt)))
    (hretry : ∀ q delay trouble, q.attempt = p.attempt → q.mayRetry plan.limit = true →
      trouble.IsTrouble → (retry q delay).Ensures box fun l =>
        Q ((trouble, some p.attempt) :: (.retryScheduled, some p.attempt) :: headings l))
    (output : Output) : (settle plan p output retry deliver).Ensures box fun l => Q (headings l) := by
  cases output with
  | ok result =>
    unfold settle
    dsimp only
    split
    · exact tells_deliver hopen hempty hp _ (hclose _ .suppressed) (hclose _ .succeeded)
    · have hattempt := p.attempt_spend plan.rule.retryUnsuccessful
      generalize p.spend plan.rule.retryUnsuccessful = spent at hattempt ⊢
      obtain ⟨signalled, q⟩ := spent
      dsimp only at hattempt ⊢
      rw [← hattempt] at hp hclose hretry
      refine tells_report (heading_notice hp .resultUnsuccessful) ?_
      let after (l : List Heading) : Prop := Q ((.resultUnsuccessful, some q.attempt) :: l)
      split
      · rename_i hagain
        have hmay : q.mayRetry plan.limit = true := (Bool.and_eq_true_iff.mp hagain).2
        exact tells_schedule (Q := after) hp fun delay => hretry q delay _ rfl hmay (Or.inr rfl)
      · exact tells_deliver (Q := after) hopen hempty hp _ (hclose _ (.suppressedAfter (Or.inr rfl)))
          (hclose _ .unsuccessful)
  | error fault =>
    let after (l : List Heading) : Prop := Q ((.attemptFailed, some p.attempt) :: l)
    refine tells_report (heading_notice hp .attemptFailed)
      (tells_judgeFault (Q := after) (fun again => ?_) fault)
    split
    · rename_i hagain
      have hmay : p.mayRetry plan.limit = true := (Bool.and_eq_true_iff.mp hagain).2
      exact tells_schedule (Q := after) hp fun delay => hretry p delay _ rfl hmay (Or.inl rfl)
    · exact tells_deliver (Q := after) hopen hempty hp _ (hclose _ (.suppressedAfter (Or.inl rfl)))
        (hclose _ .failed)

/-- The end of a run whose handle is found disposed before an attempt. -/
lemma tells_suppressed (n : Nat) (hp : p.attempt = n) (most : Nat) :
    (report (p.notice .deliverySuppressed) finished).Ensures box fun l => Onward most n (headings l) := by
  subst hp
  exact .suppressed p.attempt

/-- One attempt, however its body is invoked, goes on from the events of the attempts before. -/
lemma tells_attempt {retry : Progress → Duration → Course} (hopen : box.isClosed = false)
    (hempty : box.queue = []) (hp : p.attempt < plan.limit.maxAttempts)
    (hretry : ∀ q delay, q.attempt = p.attempt + 1 → q.attempt < plan.limit.maxAttempts →
      (retry q delay).Ensures box fun l =>
        Onward plan.limit.maxAttempts (p.attempt + 1) (headings l))
    (output : Output) : (settle plan p.begin output retry deliver).Ensures box fun l =>
      Onward plan.limit.maxAttempts p.attempt
        ((.attemptStarting, some (p.attempt + 1)) :: headings l) := by
  refine tells_settle
    (Q := fun l => Onward plan.limit.maxAttempts p.attempt
      ((.attemptStarting, some (p.attempt + 1)) :: l))
    hopen hempty (Nat.succ_ne_zero _) ?_ ?_ output
  · intro kinds hkinds
    exact .closing hp hkinds
  · intro q delay trouble hq hmay htrouble
    have hlt := Progress.attempt_lt hmay
    refine (hretry q delay hq hlt).mono fun l hl => ?_
    exact .retried (by rw [hq] at hlt; exact hlt) htrouble hl

theorem tells_blockingAttempts (hopen : box.isClosed = false) (hempty : box.queue = [])
    (left : Nat) (p : Progress) (hleft : p.attempt + left = plan.limit.maxAttempts)
    (hpos : 0 < left) : (blockingAttempts plan left p).Ensures box fun l =>
      Onward plan.limit.maxAttempts p.attempt (headings l) := by
  induction left generalizing p with
  | zero => omega
  | succ left ih =>
    intro disposed
    cases disposed with
    | true => exact tells_suppressed p.attempt rfl _
    | false =>
      refine tells_report (heading_notice (p := p.begin) (Nat.succ_ne_zero _) .attemptStarting) ?_
      intro output
      refine tells_attempt hopen hempty (by omega) (fun q delay hq hlt => ?_) output
      have hrest := ih q (by omega) (by omega)
      rw [hq] at hrest
      exact tells_pause hrest delay

theorem tells_asyncAttempts (hopen : box.isClosed = false) (hempty : box.queue = [])
    (left : Nat) (p : Progress) (hleft : p.attempt + left = plan.limit.maxAttempts)
    (hpos : 0 < left) : (asyncAttempts plan left p).Ensures box fun l =>
      Onward plan.limit.maxAttempts p.attempt (headings l) := by
  induction left generalizing p with
  | zero => omega
  | succ left ih =>
    intro disposed
    cases disposed with
    | true => exact tells_suppressed p.attempt rfl _
    | false =>
      have hbegin : p.begin.attempt ≠ 0 := Nat.succ_ne_zero _
      refine tells_report (heading_notice hbegin .attemptStarting) ⟨?_, fun output => ?_⟩
      · have hrefused : Onward plan.limit.maxAttempts p.attempt
            [(.attemptStarting, some (p.attempt + 1)), (.deliverySuppressed, some (p.attempt + 1))] :=
          .closing (by omega) .suppressed
        exact hrefused
      · refine tells_attempt hopen hempty (by omega) (fun q delay hq hlt => ?_) output
        have hrest := ih q (by omega) (by omega)
        rw [hq] at hrest
        split
        · exact hrest
        · exact hrest

lemma tells_course (plan : Plan) (manner : Manner) (hopen : box.isClosed = false)
    (hempty : box.queue = []) : (plan.course manner).Ensures box fun l =>
      .started true ∈ l → Onward plan.limit.maxAttempts 0 (headings l) := by
  have hleft : (Progress.start plan.limit).attempt + plan.limit.maxAttempts =
      plan.limit.maxAttempts := Nat.zero_add _
  have hpos : 0 < plan.limit.maxAttempts := Nat.succ_pos _
  cases manner with
  | blocking =>
    intro won
    cases won with
    | false => simp [Ensures]
    | true => exact (tells_blockingAttempts hopen hempty _ _ hleft hpos).mono fun l hl _ => hl
  | asynchronous =>
    intro won
    cases won with
    | false => simp [Ensures]
    | true => exact (tells_asyncAttempts hopen hempty _ _ hleft hpos).mono fun l hl _ => hl

end Course

lemma headings_filter_isOwn (strides : List Stride) :
    headings (strides.filter Stride.isOwn) = headings strides := by
  unfold headings
  rw [List.filterMap_filter]
  congr 1
  funext stride
  cases stride <;> rfl

lemma isTerminal_of_mem_rounds {n : Nat} {troubles : List EventKind} {heading : Heading}
    (htroubles : ∀ kind ∈ troubles, kind.IsTrouble) (h : heading ∈ rounds n troubles) :
    heading.1.isTerminal = false := by
  induction troubles generalizing n with
  | nil => simp [rounds] at h
  | cons trouble troubles ih =>
    rcases List.mem_append.mp h with h | h
    · have htrouble : trouble.isTerminal = false := by
        rcases htroubles trouble List.mem_cons_self with rfl | rfl <;> rfl
      simp only [round, List.mem_cons, List.not_mem_nil, or_false] at h
      rcases h with rfl | rfl | rfl
      · rfl
      · exact htrouble
      · rfl
    · exact ih (fun kind hkind => htroubles kind (List.mem_cons_of_mem _ hkind)) h

lemma Closing.exists_terminal {kinds : List EventKind} (h : Closing kinds) :
    ∃ front last, kinds = front ++ [last] ∧ last.isTerminal = true ∧
      ∀ kind ∈ front, kind.isTerminal = false := by
  have hquiet {trouble : EventKind} (htrouble : trouble.IsTrouble) : trouble.isTerminal = false := by
    rcases htrouble with rfl | rfl <;> rfl
  cases h with
  | succeeded => exact ⟨[.attemptStarting], _, rfl, rfl, by simp [EventKind.isTerminal]⟩
  | unsuccessful =>
    exact ⟨[.attemptStarting, .resultUnsuccessful], _, rfl, rfl, by simp [EventKind.isTerminal]⟩
  | failed => exact ⟨[.attemptStarting, .attemptFailed], _, rfl, rfl, by simp [EventKind.isTerminal]⟩
  | suppressed => exact ⟨[.attemptStarting], _, rfl, rfl, by simp [EventKind.isTerminal]⟩
  | @suppressedAfter trouble htrouble =>
    refine ⟨[.attemptStarting, trouble], _, rfl, rfl, ?_⟩
    intro kind hkind
    simp only [List.mem_cons, List.not_mem_nil, or_false] at hkind
    rcases hkind with rfl | rfl
    · rfl
    · exact hquiet htrouble
  | @suppressedRetry trouble htrouble =>
    refine ⟨[.attemptStarting, trouble, .retryScheduled], _, rfl, rfl, ?_⟩
    intro kind hkind
    simp only [List.mem_cons, List.not_mem_nil, or_false] at hkind
    rcases hkind with rfl | rfl | rfl
    · rfl
    · exact hquiet htrouble
    · rfl

namespace Race

variable {r s t : Race} {strides : List Stride}

/-- The events of a run that has started and come to its end. -/
theorem onward_of_follow (plan : Plan) (manner : Manner) (shared : SharedHandle)
    (h : (begin plan manner shared).follow strides = some t) (hover : t.IsOver)
    (hstarted : .started true ∈ strides) : Onward plan.limit.maxAttempts 0 (headings strides) := by
  have hcourse := ensures_of_follow h hover (Course.tells_course plan manner rfl rfl)
  rw [headings_filter_isOwn] at hcourse
  exact hcourse (List.mem_filter.mpr ⟨hstarted, rfl⟩)

/-- The next step of a run that is not over, behind whatever other threads do before it. -/
lemma exists_next_own (h : r.follow strides = some t) (hr : ¬ r.IsOver) (ht : t.IsOver) :
    ∃ between stride rest q s, strides = between ++ stride :: rest ∧
      (∀ step ∈ between, ∃ thread, step = .other thread) ∧ r.follow between = some q ∧
      q.step stride = some s ∧ r.standing.Leads stride s.standing ∧
      q.around.meet stride = some s.around ∧ s.follow rest = some t := by
  induction strides generalizing r with
  | nil =>
    cases h
    exact absurd ht hr
  | cons stride strides ih =>
    obtain ⟨s, hstep, hrest⟩ := follow_cons_eq_some h
    rcases step_cases hstep with ⟨thread, shared, rfl, hshared, rfl⟩ | ⟨hlead, hmeet⟩
    · obtain ⟨between, own, rest, q, s, rfl, hothers, hq, hs, hlead, hmeet, ht⟩ := ih hrest hr
      refine ⟨.other thread :: between, own, rest, q, s, rfl, ?_, ?_, hs, hlead, hmeet, ht⟩
      · simpa using hothers
      · rw [follow_cons, hstep]
        exact hq
    · exact ⟨[], stride, strides, r, s, rfl, by simp, rfl, hstep, hlead, hmeet, hrest⟩

/-- Another thread disposed the handle between the start of the run and its first look. -/
def DisposedAtOnce (r : Race) (strides : List Stride) : Prop :=
  ∃ first between rest q s, strides = first ++ .started true :: (between ++ .looked true :: rest) ∧
    (∀ stride ∈ first ++ between, ∃ thread, stride = .other thread) ∧
    r.follow (first ++ [.started true]) = some q ∧ q.isDisposed = false ∧
    q.follow between = some s ∧ s.isDisposed = true

lemma start_of_course (plan : Plan) (manner : Manner) : ∃ next look notice rest,
    plan.course manner = .start next ∧ next false = .finished ∧ next true = .askDisposed look ∧
      look false = .report notice rest ∧ notice.kind = .attemptStarting := by
  cases manner <;> exact ⟨_, _, _, _, rfl, rfl, rfl, rfl, rfl⟩

/-- A handle that has just been started is not disposed. -/
lemma isDisposed_of_start {handle : Handle} (h : handle.start.1 = true) :
    handle.start.2.isDisposed = false := by
  unfold Handle.start at h ⊢
  split
  case isTrue => rfl
  case isFalse hidle => simp [hidle] at h

/-- Only a disposal behind its back keeps a run that has started from its first attempt. -/
theorem disposedAtOnce_of_follow (plan : Plan) (manner : Manner) (shared : SharedHandle)
    (h : (begin plan manner shared).follow strides = some t) (hover : t.IsOver)
    (hstarted : .started true ∈ strides)
    (hnone : ∀ attempt, (.attemptStarting, attempt) ∉ headings strides) :
    (begin plan manner shared).DisposedAtOnce strides := by
  -- The first two steps of the run are the start and a look. A look that finds the handle in order
  -- is followed by the first attempt, which `hnone` rules out.
  obtain ⟨next, look, notice, rest, hcourse, hlost, hwon, hlook, hkind⟩ :=
    start_of_course plan manner
  have hstanding : (begin plan manner shared).standing = .before (.start next) :=
    congrArg Standing.before hcourse
  have hbegin : ¬ (begin plan manner shared).IsOver := by simp [IsOver, hstanding]
  obtain ⟨first, stride, later, p, q, rfl, hfirst, hp, hpstep, hlead, hmeet, hq⟩ :=
    exists_next_own h hbegin hover
  rw [hstanding] at hlead
  obtain ⟨won, rfl, hqstanding⟩ := hlead.of_start
  obtain ⟨hstart, hqaround⟩ := Surroundings.start_of_meet hmeet
  cases won with
  | false =>
    have hqover : q.IsOver := hqstanding.trans (congrArg Standing.before hlost)
    have hothers := follow_of_isOver hq hqover
    rcases List.mem_append.mp hstarted with hmem | hmem
    · obtain ⟨thread, hthread⟩ := hfirst _ hmem
      cases hthread
    · rcases List.mem_cons.mp hmem with heq | hmem
      · cases heq
      · obtain ⟨thread, hthread⟩ := hothers _ hmem
        cases hthread
  | true =>
    rw [hwon] at hqstanding
    have hqover : ¬ q.IsOver := by simp [IsOver, hqstanding]
    obtain ⟨between, stride, later, u, v, rfl, hbetween, hu, -, hlead, hmeet, hv⟩ :=
      exists_next_own hq hqover hover
    rw [hqstanding] at hlead
    obtain ⟨disposed, rfl, hvstanding⟩ := hlead.of_look
    obtain ⟨hdisposed, hvaround⟩ := Surroundings.look_of_meet hmeet
    cases disposed with
    | false =>
      rw [hlook] at hvstanding
      have hvover : ¬ v.IsOver := by simp [IsOver, hvstanding]
      obtain ⟨_, stride, _, _, _, rfl, -, -, -, hlead, -, -⟩ := exists_next_own hv hvover hover
      rw [hvstanding] at hlead
      obtain rfl := hlead.of_report
      refine absurd ?_ (hnone notice.attempt)
      rw [← hkind]
      exact List.mem_filterMap.mpr ⟨.told notice, by simp, rfl⟩
    | true =>
      refine ⟨first, between, later, q, u, rfl, ?_, ?_, ?_, hu, hdisposed⟩
      · intro stride hmem
        exact (List.mem_append.mp hmem).elim (hfirst stride) (hbetween stride)
      · rw [follow_append, hp, Option.bind_some, follow_cons, hpstep]
        rfl
      · have hrunning := isDisposed_of_start hstart
        rw [isDisposed, hqaround]
        exact hrunning

/-- The events of a run that has started and come to its end: the suppression alone, if another
thread disposed the handle before the first look, or else rounds of attempts and the closing one of
the attempt behind them, within the limit. The last event is the only terminal one. -/
theorem events_follow_grammar (plan : Plan) (manner : Manner) (shared : SharedHandle)
    (strides : List Stride) (t : Race) (h : (begin plan manner shared).follow strides = some t)
    (hover : t.IsOver) (hstarted : .started true ∈ strides) :
    ((headings strides = [(.deliverySuppressed, none)] ∧
        (begin plan manner shared).DisposedAtOnce strides) ∨
      ∃ troubles kinds, (∀ kind ∈ troubles, kind.IsTrouble) ∧ Closing kinds ∧
        troubles.length + 1 ≤ plan.limit.maxAttempts ∧
        headings strides = rounds 1 troubles ++ kinds.map (·, some (troubles.length + 1))) ∧
    ∃ front last, headings strides = front ++ [last] ∧ last.1.isTerminal = true ∧
      ∀ heading ∈ front, heading.1.isTerminal = false := by
  rcases (onward_of_follow plan manner shared h hover hstarted).eq_rounds with
    hnone | ⟨troubles, kinds, htroubles, hkinds, hlt, hrounds⟩
  · have hsilent (attempt) : (EventKind.attemptStarting, attempt) ∉ headings strides := by
      rw [hnone]
      simp
    refine ⟨Or.inl ⟨hnone, ?_⟩, [], _, hnone, rfl, by simp⟩
    exact disposedAtOnce_of_follow plan manner shared h hover hstarted hsilent
  · rw [Nat.zero_add] at hlt
    rw [Nat.zero_add, Nat.add_comm 1] at hrounds
    obtain ⟨front, last, hfront, hlast, hquiet⟩ := hkinds.exists_terminal
    refine ⟨Or.inr ⟨troubles, kinds, htroubles, hkinds, hlt, hrounds⟩,
      rounds 1 troubles ++ front.map (·, some (troubles.length + 1)),
      (last, some (troubles.length + 1)), ?_, hlast, ?_⟩
    · rw [hrounds, hfront]
      simp
    · intro heading hmem
      rcases List.mem_append.mp hmem with hmem | hmem
      · exact isTerminal_of_mem_rounds htroubles hmem
      · obtain ⟨kind, hkind, rfl⟩ := List.mem_map.mp hmem
        exact hquiet kind hkind

/-- The first attempt leads to another one. Behind the second one, a retry is scheduled in vain, as
another thread disposes the handle before it. -/
theorem events_of_given_up :
    let plan : Plan := { Plan.canceled with limit := .ofNat 2 }
    let failed (n : Nat) : List Stride :=
      [.looked false, .told { kind := .attemptStarting, attempt := some n }, .bodyBegan,
        .bodyEnded (.error .canceled),
        .told { kind := .attemptFailed, attempt := some n, error := some "call cancelled" },
        .told { kind := .retryScheduled, attempt := some n, delay := some .zero }]
    let strides : List Stride :=
      [.started true] ++ failed 1 ++ failed 2 ++
        [.other 0, .looked true, .told { kind := .deliverySuppressed, attempt := some 2 }]
    headings strides =
        rounds 1 [.attemptFailed] ++
          [.attemptStarting, .attemptFailed, .retryScheduled, .deliverySuppressed].map (·, some 2) ∧
      ∃ t, (begin plan .asynchronous { uses := [.disposing] }).follow strides = some t ∧
        t.isDisposed = true ∧
        ∃ front last, headings strides = front ++ [last] ∧ last.1.isTerminal = true ∧
          ∀ heading ∈ front, heading.1.isTerminal = false := by
  intro plan failed strides
  have hends : ((begin plan .asynchronous { uses := [.disposing] }).follow strides).any
      (fun r => decide r.IsOver && r.isDisposed) = true := by
    decide +kernel
  obtain ⟨t, ht, hends⟩ := (Option.any_eq_true _ _).mp hends
  obtain ⟨hover, hdisposed⟩ := Bool.and_eq_true_iff.mp hends
  obtain ⟨-, hlast⟩ := events_follow_grammar plan .asynchronous { uses := [.disposing] } strides t ht
    (of_decide_eq_true hover) List.mem_cons_self
  exact ⟨rfl, t, ht, hdisposed, hlast⟩

end Race

end Redial
