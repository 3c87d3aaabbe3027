import Redial.Proofs.Race

/-!
# Work after a disposal

A run looks at its handle before every attempt and twice before its callback. Between a look and
what comes behind it other threads can still dispose the handle, so one body or one callback may
begin after the disposal, but not more: the next one is behind another look. A handle that is
disposed while the body or the predicate is at work lets nothing begin any more.
-/

namespace Redial

namespace Course

/-- If all looks find the handle disposed, at most so many bodies and callbacks begin. -/
def AtMost : Course → Nat → Prop
  | finished, _ | panics _, _ => True
  | start next, n => (next false).AtMost n
  | askDisposed next, n => (next true).AtMost n
  | report _ next, n | sleep _ next, n | await _ next, n => next.AtMost n
  | invoke next, n => 0 < n ∧ ∀ output, (next output).AtMost (n - 1)
  | dispatch next, n => (next none).AtMost n ∧ 0 < n ∧ ∀ output, (next (some output)).AtMost (n - 1)
  | consult _ next, n => ∀ again, (next again).AtMost n
  | readClock next, n => ∀ now, (next now).AtMost n
  | push _ next, n => ∀ answer, (next answer).AtMost n
  | pop next, n => ∀ verdict, (next verdict).AtMost n
  | callback _ next, n => 0 < n ∧ next.AtMost (n - 1)

/-- On every way through the course, all that follows a piece of user code is behind another look
at the handle. -/
def Wary : Course → Prop
  | finished | panics _ => True
  | start next => ∀ won, (next won).Wary
  | askDisposed next => ∀ disposed, (next disposed).Wary
  | report _ next | sleep _ next | await _ next => next.Wary
  | invoke next => ∀ output, (next output).AtMost 0 ∧ (next output).Wary
  | dispatch next => ∀ output, (next output).AtMost 0 ∧ (next output).Wary
  | consult _ next => ∀ again, (next again).AtMost 0 ∧ (next again).Wary
  | readClock next => ∀ now, (next now).Wary
  | push _ next => ∀ answer, (next answer).Wary
  | pop next => ∀ verdict, (next verdict).Wary
  | callback _ next => next.AtMost 0 ∧ next.Wary

/-- Nothing begins any more on a disposed handle, neither now nor after any piece of user code. -/
def Guarded (course : Course) : Prop := course.AtMost 0 ∧ course.Wary

lemma AtMost.mono {course : Course} {m n : Nat} (h : course.AtMost m) (hmn : m ≤ n) :
    course.AtMost n := by
  induction course generalizing m n with
  | finished | panics => trivial
  | start next ih => exact ih false h hmn
  | askDisposed next ih => exact ih true h hmn
  | report _ next ih | sleep _ next ih | await _ next ih => exact ih h hmn
  | invoke next ih =>
    obtain ⟨hpos, hnext⟩ := h
    exact ⟨by omega, fun output => ih output (hnext output) (by omega)⟩
  | dispatch next ih =>
    obtain ⟨hnone, hpos, hsome⟩ := h
    exact ⟨ih none hnone hmn, by omega, fun output => ih (some output) (hsome output) (by omega)⟩
  | consult _ next ih => exact fun again => ih again (h again) hmn
  | readClock next ih => exact fun now => ih now (h now) hmn
  | push _ next ih => exact fun answer => ih answer (h answer) hmn
  | pop next ih => exact fun verdict => ih verdict (h verdict) hmn
  | callback _ next ih => exact ⟨by have := h.1; omega, ih h.2 (by omega)⟩

/-- A wary course begins one piece of work at most on a disposed handle: the next one is behind a
look. -/
lemma Wary.atMost_one {course : Course} (h : course.Wary) : course.AtMost 1 := by
  induction course with
  | finished | panics => trivial
  | start next ih => exact ih false (h false)
  | askDisposed next ih => exact ih true (h true)
  | report _ next ih | sleep _ next ih | await _ next ih => exact ih h
  | invoke next ih => exact ⟨Nat.one_pos, fun output => (h output).1⟩
  | dispatch next ih =>
    exact ⟨ih none (h none).2, Nat.one_pos, fun output => (h (some output)).1⟩
  | consult _ next ih => exact fun again => ih again (h again).2
  | readClock next ih => exact fun now => ih now (h now)
  | push _ next ih => exact fun answer => ih answer (h answer)
  | pop next ih => exact fun verdict => ih verdict (h verdict)
  | callback _ next ih => exact ⟨Nat.one_pos, h.1⟩

lemma guarded_finished : finished.Guarded := ⟨trivial, trivial⟩

lemma guarded_panics (text : String) : (panics text).Guarded := ⟨trivial, trivial⟩

lemma Guarded.report {next : Course} (h : next.Guarded) (notice : Notice) :
    (report notice next).Guarded := h

/-- A look that leads to the end on a disposed handle guards whatever is behind it. -/
lemma guarded_askDisposed {next : Bool → Course} (htrue : (next true).Guarded)
    (hfalse : (next false).Wary) : (askDisposed next).Guarded :=
  ⟨htrue.1, fun disposed => by
    cases disposed with
    | false => exact hfalse
    | true => exact htrue.2⟩

lemma guarded_pauseUntil {next : Course} (h : next.Guarded) (deadline looks : Nat) :
    (pauseUntil deadline next looks).Guarded := by
  induction looks with
  | zero => exact h
  | succ looks ih =>
    refine guarded_askDisposed h ?_
    intro now
    by_cases hnow : deadline ≤ now
    · simpa only [Bool.false_eq_true, if_false, hnow, if_true] using h.2
    · simpa only [Bool.false_eq_true, if_false, hnow, Wary] using ih.2

lemma guarded_pause {next : Course} (h : next.Guarded) (delay : Duration) :
    (pause delay next).Guarded := by
  have hnow (now : Nat) : (if now + delay.nanos < clockLimit then
      pauseUntil (now + delay.nanos) next (looksFor delay) else panics deadlineOverflow).Guarded := by
    split
    · exact guarded_pauseUntil h _ _
    · exact guarded_panics _
  exact ⟨fun now => (hnow now).1, fun now => (hnow now).2⟩

section Settling

variable {plan : Plan} {retry : Duration → Course} {finish : Progress → Verdict → Course}

lemma guarded_schedule (hretry : ∀ delay, (retry delay).Guarded) (p : Progress) :
    (schedule plan p retry).Guarded := by
  unfold schedule
  split
  · exact guarded_panics _
  · exact (hretry _).report _

lemma guarded_judgeFault {next : Bool → Course} (hnext : ∀ again, (next again).Guarded)
    (fault : Fault) : (judgeFault plan fault next).Guarded := by
  unfold judgeFault
  split
  · exact hnext _
  · exact ⟨fun again => (hnext again).1, hnext⟩

lemma guarded_settle {retry : Progress → Duration → Course}
    (hretry : ∀ p delay, (retry p delay).Guarded) (hfinish : ∀ p verdict, (finish p verdict).Guarded)
    (p : Progress) (output : Output) : (settle plan p output retry finish).Guarded := by
  cases output with
  | ok result =>
    unfold settle
    dsimp only
    split
    · exact hfinish p _
    · apply Guarded.report
      split
      · exact guarded_schedule (hretry _) _
      · exact hfinish _ _
  | error fault =>
    apply Guarded.report
    apply guarded_judgeFault
    intro again
    split
    · exact guarded_schedule (hretry p) p
    · exact hfinish p _

end Settling

/-- Each verdict is looked at again before its callback. -/
lemma guarded_drain (p : Progress) (held : Nat) : (drain p held).Guarded := by
  induction held with
  | zero => exact guarded_finished
  | succ held ih =>
    have hlook (verdict : Verdict) : (askDisposed fun disposed =>
        if disposed then report (p.notice .deliverySuppressed) (drain p held)
        else report (verdictNotice p verdict) (callback verdict (drain p held))).Guarded :=
      guarded_askDisposed (ih.report _) ih
    constructor
    · intro verdict
      cases verdict with
      | none => exact guarded_finished.1
      | some verdict => exact (hlook verdict).1
    · intro verdict
      cases verdict with
      | none => exact guarded_finished.2
      | some verdict => exact (hlook verdict).2

lemma guarded_deliver (p : Progress) (verdict : Verdict) : (deliver p verdict).Guarded := by
  refine guarded_askDisposed (guarded_finished.report _) ?_
  intro answer
  cases answer with
  | error reason => exact (guarded_finished.report _).2
  | ok held => exact (guarded_drain p held).2

lemma guarded_blockingAttempts (plan : Plan) (left : Nat) (p : Progress) :
    (blockingAttempts plan left p).Guarded := by
  induction left generalizing p with
  | zero => exact guarded_finished
  | succ left ih =>
    refine guarded_askDisposed (guarded_finished.report _) ?_
    intro output
    exact guarded_settle (fun p delay => guarded_pause (ih p) delay) guarded_deliver _ _

lemma guarded_asyncAttempts (plan : Plan) (left : Nat) (p : Progress) :
    (asyncAttempts plan left p).Guarded := by
  induction left generalizing p with
  | zero => exact guarded_finished
  | succ left ih =>
    refine guarded_askDisposed (guarded_finished.report _) ?_
    intro output
    cases output with
    | none => exact guarded_finished.report _
    | some output =>
      refine guarded_settle (fun p delay => ?_) guarded_deliver _ _
      split
      · exact ih p
      · exact ih p

end Course

/-- A body or a callback begins. -/
def Stride.isWork : Stride → Bool
  | .bodyBegan | .callbackBegan _ => true
  | _ => false

namespace Standing

/-- `Course.AtMost` of what is left of a run. -/
def AtMost : Standing → Nat → Prop
  | before course, n => course.AtMost n
  | inBody next, n => ∀ output, (next output).AtMost n
  | inPredicate next, n => ∀ again, (next again).AtMost n
  | inCallback next, n => next.AtMost n

/-- `Course.Wary` of what is left of a run; what follows the user code at work is guarded. -/
def Wary : Standing → Prop
  | before course => course.Wary
  | inBody next => ∀ output, (next output).Guarded
  | inPredicate next => ∀ again, (next again).Guarded
  | inCallback next => next.Guarded

lemma Wary.atMost_one {s : Standing} (h : s.Wary) : s.AtMost 1 := by
  cases s with
  | before course => exact Course.Wary.atMost_one h
  | inBody next => exact fun output => (h output).1.mono (by omega)
  | inPredicate next => exact fun again => (h again).1.mono (by omega)
  | inCallback next => exact h.1.mono (by omega)

lemma Wary.atMost_zero {s : Standing} (h : s.Wary) (hin : s.inAttempt = true) : s.AtMost 0 := by
  cases s with
  | inBody next => exact fun output => (h output).1
  | inPredicate next => exact fun again => (h again).1
  | before | inCallback => cases hin

lemma Leads.wary {s t : Standing} {stride : Stride} (h : s.Leads stride t) (hs : s.Wary) :
    t.Wary := by
  cases h with
  | start won => exact hs won
  | look disposed => exact hs disposed
  | tell | sleep | wait => exact hs
  | enterBody => exact hs
  | sendBody => exact fun output => hs (some output)
  | refuseBody => exact (hs none).2
  | leaveBody output => exact (hs output).2
  | enterPredicate => exact hs
  | leavePredicate again => exact (hs again).2
  | readClock now => exact hs now
  | push _ answer => exact hs answer
  | pop verdict => exact hs verdict
  | enterCallback => exact hs
  | missCallback => exact hs.2
  | leaveCallback => exact hs.2

/-- A step on a disposed handle leaves one piece of work less if it begins one. -/
lemma Leads.atMost {s t : Standing} {stride : Stride} {n : Nat} (h : s.Leads stride t)
    (hwon : stride ≠ .started true) (hlook : stride ≠ .looked false) (hn : s.AtMost n) :
    if stride.isWork then 0 < n ∧ t.AtMost (n - 1) else t.AtMost n := by
  cases h with
  | start won =>
    cases won with
    | false => exact hn
    | true => exact absurd rfl hwon
  | look disposed =>
    cases disposed with
    | false => exact absurd rfl hlook
    | true => exact hn
  | tell | sleep | wait | enterBody | enterPredicate | enterCallback | leaveCallback => exact hn
  | sendBody => exact hn.2
  | refuseBody => exact hn.1
  | leaveBody output => exact hn output
  | leavePredicate again => exact hn again
  | readClock now => exact hn now
  | push _ answer => exact hn answer
  | pop verdict => exact hn verdict
  | missCallback => exact hn.2.mono (by omega)

end Standing

/-- A disposed handle stays disposed, whatever a thread does with it. -/
lemma SharedHandle.isDisposed_of_step {s t : SharedHandle} {thread : Nat}
    (h : s.step thread = some t) (hs : s.handle.isDisposed = true) :
    t.handle.isDisposed = true := by
  have hstate : s.handle.state = .disposed := of_decide_eq_true hs
  unfold step at h
  split at h
  case h_1 =>
    cases h
    exact (Handle.isDisposed_start s.handle).trans hs
  case h_2 =>
    simp only [Handle.swap, hstate] at h
    cases h
    rfl
  case h_6 => cases h
  all_goals
    cases h
    exact hs

namespace Race

variable {r s t : Race} {stride : Stride} {strides : List Stride}

/-- On a disposed handle a run is told so whenever it asks, and does not change that. -/
lemma meet_disposed {e f : Surroundings} (h : e.meet stride = some f) (he : e.isDisposed = true) :
    f.isDisposed = true ∧ stride ≠ .started true ∧ stride ≠ .looked false := by
  by_cases hstart : ∃ won, stride = .started won
  · obtain ⟨won, rfl⟩ := hstart
    obtain ⟨hwon, rfl⟩ := Surroundings.start_of_meet h
    have hlost : e.shared.handle.start.1 = false := by
      have hstate : e.shared.handle.state = .disposed := of_decide_eq_true he
      simp [Handle.start, hstate]
    refine ⟨(Handle.isDisposed_start _).trans he, ?_, by simp⟩
    rw [← hwon, hlost]
    simp
  · have hshared := Surroundings.shared_of_meet h fun won hwon => hstart ⟨won, hwon⟩
    refine ⟨?_, fun hwon => hstart ⟨true, hwon⟩, ?_⟩
    · unfold Surroundings.isDisposed
      rw [hshared]
      exact he
    · rintro rfl
      rw [(Surroundings.look_of_meet h).1] at he
      cases he

lemma step_wary (h : r.step stride = some s) (hr : r.standing.Wary) : s.standing.Wary := by
  rcases step_cases h with ⟨thread, shared, rfl, hshared, rfl⟩ | ⟨hlead, hmeet⟩
  · exact hr
  · exact hlead.wary hr

lemma follow_wary (h : r.follow strides = some t) (hr : r.standing.Wary) : t.standing.Wary := by
  induction strides generalizing r with
  | nil =>
    cases h
    exact hr
  | cons stride strides ih =>
    obtain ⟨s, hstep, hrest⟩ := follow_cons_eq_some h
    exact ih hrest (step_wary hstep hr)

lemma step_atMost {n : Nat} (h : r.step stride = some s) (hr : r.isDisposed = true)
    (hn : r.standing.AtMost n) :
    s.isDisposed = true ∧
      if stride.isWork then 0 < n ∧ s.standing.AtMost (n - 1) else s.standing.AtMost n := by
  rcases step_cases h with ⟨thread, shared, rfl, hshared, rfl⟩ | ⟨hlead, hmeet⟩
  · exact ⟨SharedHandle.isDisposed_of_step hshared hr, hn⟩
  · obtain ⟨hdisposed, hwon, hlook⟩ := meet_disposed hmeet hr
    exact ⟨hdisposed, hlead.atMost hwon hlook hn⟩

lemma follow_atMost {n : Nat} (h : r.follow strides = some t) (hr : r.isDisposed = true)
    (hn : r.standing.AtMost n) : strides.countP Stride.isWork ≤ n := by
  -- The handle stays disposed, so each piece of work is one less of those that are left.
  induction strides generalizing r n with
  | nil => exact Nat.zero_le n
  | cons stride strides ih =>
    obtain ⟨s, hstep, hrest⟩ := follow_cons_eq_some h
    obtain ⟨hs, hleft⟩ := step_atMost hstep hr hn
    rw [List.countP_cons]
    cases hwork : stride.isWork with
    | false =>
      rw [hwork] at hleft
      exact ih hrest hs hleft
    | true =>
      rw [hwork] at hleft
      have hcount := ih hrest hs hleft.2
      have hpos := hleft.1
      simp only [if_true]
      omega

/-- Before the run starts, all steps are those of other threads. -/
lemma follow_of_not_started {next : Bool → Course} (h : r.follow strides = some t)
    (hr : r.standing = .before (.start next)) (hstart : ∀ won, .started won ∉ strides) :
    t.standing = r.standing ∧ ∀ stride ∈ strides, ∃ thread, stride = .other thread := by
  induction strides generalizing r with
  | nil =>
    cases h
    simp
  | cons stride strides ih =>
    obtain ⟨s, hstep, hrest⟩ := follow_cons_eq_some h
    rcases step_cases hstep with ⟨thread, shared, rfl, hshared, rfl⟩ | ⟨hlead, hmeet⟩
    · have hlater := ih hrest hr fun won hwon => hstart won (List.mem_cons_of_mem _ hwon)
      simpa using hlater
    · rw [hr] at hlead
      obtain ⟨won, rfl, hs⟩ := hlead.of_start
      exact absurd List.mem_cons_self (hstart won)

/-- On a handle that was disposed before, the run finds out that it cannot start, and that is all
it does. -/
lemma follow_of_late_start {next : Bool → Course} (h : r.follow strides = some t)
    (hr : r.standing = .before (.start next)) (hnext : next false = .finished)
    (hdisposed : r.isDisposed = true) :
    ∀ stride ∈ strides, stride = .started false ∨ ∃ thread, stride = .other thread := by
  induction strides generalizing r with
  | nil => simp
  | cons stride strides ih =>
    obtain ⟨s, hstep, hrest⟩ := follow_cons_eq_some h
    rcases step_cases hstep with ⟨thread, shared, rfl, hshared, rfl⟩ | ⟨hlead, hmeet⟩
    · have hlater := ih hrest hr (SharedHandle.isDisposed_of_step hshared hdisposed)
      simpa using hlater
    · have hwon := (meet_disposed hmeet hdisposed).2.1
      rw [hr] at hlead
      obtain ⟨won, rfl, hs⟩ := hlead.of_start
      cases won with
      | true => exact absurd rfl hwon
      | false =>
        have hover : s.IsOver := hs.trans (congrArg Standing.before hnext)
        intro stride hmem
        rcases List.mem_cons.mp hmem with rfl | hmem
        · exact Or.inl rfl
        · exact Or.inr (follow_of_isOver hrest hover stride hmem)

lemma course_eq_start (plan : Plan) (manner : Manner) :
    ∃ next, plan.course manner = .start next ∧ next false = .finished := by
  cases manner <;> exact ⟨_, rfl, rfl⟩

lemma begin_wary (plan : Plan) (manner : Manner) (shared : SharedHandle) :
    (begin plan manner shared).standing.Wary := by
  cases manner with
  | blocking =>
    intro won
    cases won with
    | false => trivial
    | true => exact (Course.guarded_blockingAttempts _ _ _).2
  | asynchronous =>
    intro won
    cases won with
    | false => trivial
    | true => exact (Course.guarded_asyncAttempts _ _ _).2

/-- Once the handle of a run is disposed, one more body or one callback begins at most. If it was
disposed before the start, the run does nothing but fail to start. If it was disposed while the
body or the predicate was at work, neither a body nor a callback begins any more. -/
theorem disposal_bounds_work (plan : Plan) (manner : Manner) (shared : SharedHandle)
    (first rest : List Stride) (r s : Race)
    (hfirst : (begin plan manner shared).follow first = some r) (hr : r.isDisposed = true)
    (hrest : r.follow rest = some s) :
    rest.countP Stride.isWork ≤ 1 ∧
    ((∀ won, .started won ∉ first) → ∀ stride ∈ first ++ rest,
      stride = .started false ∨ ∃ thread, stride = .other thread) ∧
    (r.standing.inAttempt = true → rest.countP Stride.isWork = 0) := by
  have hwary := follow_wary hfirst (begin_wary plan manner shared)
  refine ⟨follow_atMost hrest hr hwary.atMost_one, ?_, ?_⟩
  · intro hstart stride hmem
    obtain ⟨next, hcourse, hnext⟩ := course_eq_start plan manner
    have hbegin : (begin plan manner shared).standing = .before (.start next) :=
      congrArg Standing.before hcourse
    obtain ⟨hstanding, hothers⟩ := follow_of_not_started hfirst hbegin hstart
    rcases List.mem_append.mp hmem with hmem | hmem
    · exact Or.inr (hothers stride hmem)
    · exact follow_of_late_start hrest (hstanding.trans hbegin) hnext hr stride hmem
  · intro hin
    exact Nat.le_zero.mp (follow_atMost hrest hr (hwary.atMost_zero hin))

/-- A disposal between the look and the body: the body begins all the same, as the last piece of
work. -/
theorem one_body_after_disposal :
    let first : List Stride :=
      [.started true, .looked false, .told { kind := .attemptStarting, attempt := some 1 }, .other 0]
    let rest : List Stride :=
      [.bodyBegan, .other 0, .bodyEnded (.error .canceled),
        .told { kind := .attemptFailed, attempt := some 1, error := some "call cancelled" },
        .looked true, .told { kind := .deliverySuppressed, attempt := some 1 }]
    ∃ r s, (begin .canceled .blocking { uses := [.disposing] }).follow first = some r ∧
      r.isDisposed = true ∧ r.follow rest = some s ∧ s.IsOver ∧
      rest.countP Stride.isWork = 1 ∧ rest.countP Stride.isWork ≤ 1 := by
  intro first rest
  have h := disposal_bounds_work .canceled .blocking { uses := [.disposing] } first rest _ _
    rfl rfl rfl
  exact ⟨_, _, rfl, rfl, rfl, rfl, rfl, h.1⟩

end Race

end Redial
