import Redial.Proofs.AttemptCount
import Redial.Proofs.SettledSessions
import Redial.Proofs.UserCode

/-!
# What a run comes to

A call that nobody disturbs invokes its body until the first attempt that its plan settles for: a
success, an unsuccessful result that is not to be retried, a fault that the predicate rejects, or
the last attempt of all. The result or the fault of this attempt goes to the callback for it, once,
and nothing goes to the other one.

The budget never decides. Each attempt draws on it once at most, so at every attempt it still holds
as many retries as the limit allows.
-/

namespace Redial

/-- The faults among the first `n` outputs. -/
def faultCount (outputs : Nat → Output) : Nat → Nat
  | 0 => 0
  | n + 1 =>
    match outputs (n + 1) with
    | .ok _ => faultCount outputs n
    | .error _ => faultCount outputs n + 1

def Verdict.ofOutput : Output → Verdict
  | .ok result => .success result
  | .error fault => .failure fault

namespace Plan

/-- No user code of the plan panics. The `n`-th invocation of the body yields `outputs n`, and that
of the predicate answers `answers n`. -/
structure Yields (plan : Plan) (outputs : Nat → Output) (answers : Nat → Fault → Bool) : Prop where
  body : ∀ n, (plan.body n).Returns (outputs n)
  predicate : ∀ predicate, plan.rule.predicate = some predicate →
    ∀ n fault, (predicate n fault).Returns (answers n fault)
  onSuccess : ∀ callback, plan.onSuccess = some callback → ∀ result, (callback result).Returns ()
  onFailure : ∀ callback, plan.onFailure = some callback → ∀ fault, (callback fault).Returns ()

/-- A run settles for attempt `n`. -/
def StopsAt (plan : Plan) (outputs : Nat → Output) (answers : Nat → Fault → Bool) (n : Nat) : Prop :=
  match outputs n with
  | .ok result =>
    result.succeeded = true ∨ plan.rule.retryUnsuccessful = false ∨ n = plan.limit.maxAttempts
  | .error fault =>
    (plan.rule.predicate.isSome = true ∧ answers (faultCount outputs n) fault = false) ∨
      n = plan.limit.maxAttempts

lemma stopsAt_of_ok {plan : Plan} {outputs : Nat → Output} {answers : Nat → Fault → Bool} {n : Nat}
    {result : Result} (h : outputs n = .ok result) : plan.StopsAt outputs answers n ↔
      result.succeeded = true ∨ plan.rule.retryUnsuccessful = false ∨
        n = plan.limit.maxAttempts := by
  unfold StopsAt
  rw [h]

lemma stopsAt_of_error {plan : Plan} {outputs : Nat → Output} {answers : Nat → Fault → Bool}
    {n : Nat} {fault : Fault} (h : outputs n = .error fault) : plan.StopsAt outputs answers n ↔
      (plan.rule.predicate.isSome = true ∧ answers (faultCount outputs n) fault = false) ∨
        n = plan.limit.maxAttempts := by
  unfold StopsAt
  rw [h]

/-- A run goes on after attempt `n`, with its progress and a delay. -/
structure GoesOn (plan : Plan) (n : Nat) (p : Progress) (delay : Duration) : Prop where
  attempt : p.attempt = n
  within : n < plan.limit.maxAttempts
  budget : plan.limit.retries ≤ p.budget.remaining + n
  index : p.retryIndex < plan.limit.retries
  delay : plan.backoff.delay p.retryIndex (plan.draws p.retryIndex) = .ok delay

/-- What is delivered at the end. -/
def deliveries (plan : Plan) : Output → List Act
  | .ok result => if plan.onSuccess.isSome then [.callback (.success result)] else []
  | .error fault => if plan.onFailure.isSome then [.callback (.failure fault)] else []

/-- How often the predicate is asked in `n` attempts. -/
def timesAsked (plan : Plan) (outputs : Nat → Output) (n : Nat) : Nat :=
  if plan.rule.predicate.isSome then faultCount outputs n else 0

/-- The call of a plan in the midst of its run. -/
def underway (plan : Plan) (feed : Option FeedId) (listed : Bool) (bodies predicates : Nat) : Call :=
  { plan.toCall feed listed with
    handle := { state := .running }
    bodyCalls := bodies
    predicateCalls := predicates
    presence := .busy }

lemma timesAsked_of_ok {plan : Plan} {outputs : Nat → Output} {n : Nat} {result : Result}
    (h : outputs (n + 1) = .ok result) : plan.timesAsked outputs (n + 1) = plan.timesAsked outputs n := by
  have hcount : faultCount outputs (n + 1) = faultCount outputs n := by
    rw [faultCount, h]
  unfold timesAsked
  rw [hcount]

end Plan

namespace Exchange

/-- Call `c` is in the midst of its run, and nobody has disposed its handle. -/
structure Underway (plan : Plan) (feed : Option FeedId) (listed : Bool) (c : CallId)
    (bodies predicates : Nat) (done : List Act) (x : Exchange) : Prop where
  call : x.call? c = some (plan.underway feed listed bodies predicates)
  quiet : x.Quiet (· = c) c 0
  works : x.works c = done

variable {plan : Plan} {feed : Option FeedId} {listed : Bool} {c : CallId} {n m : Nat}
  {done : List Act} {x y : Exchange} {nesting : Nesting} {outputs : Nat → Output}
  {answers : Nat → Fault → Bool}

namespace Underway

/-- Others can do nothing to the call but dispose its handle. -/
lemma calm (h : Underway plan feed listed c n m done x) (hquiet : y.Quiet (· = c) c 0)
    (hcalm : Calm (· = c) x y) (hlive : y.isDisposed c = false) :
    Underway plan feed listed c n m done y where
  call := by
    rcases hcalm.call c rfl with hsame | hdisposed
    · exact hsame.trans h.call
    · unfold Exchange.isDisposed at hlive
      rw [hdisposed, h.call] at hlive
      cases hlive
  quiet := hquiet
  works := (works_congr (hcalm.acts c rfl)).trans h.works

lemma tell (h : Underway plan feed listed c n m done x) (notice : Notice) :
    Underway plan feed listed c n m done (x.tell c notice) where
  call := (call?_tell x c notice c).trans h.call
  quiet := h.quiet.tell c notice
  works := (works_tell x c notice c).trans h.works

lemma isDisposed (h : Underway plan feed listed c n m done x) : x.isDisposed c = false := by
  unfold Exchange.isDisposed
  rw [h.call]
  rfl

end Underway

/-- The handle of call `c` is not disposed yet, if it is not at the end. -/
lemma live_of_follow (hnesting : nesting.IsGentle fun _ => False) {course : Course}
    (htidy : course.Tidy 0) (hquiet : x.Quiet (· = c) c 0)
    (hlive : (follow nesting c course x).2.isDisposed c = false) : x.isDisposed c = false :=
  isDisposed_of_follow hnesting htidy hquiet (hquiet.known rfl) hlive

lemma play_ok {α : Type} {script : Script α} {value : α} (hnesting : nesting.IsGentle (· = c))
    (hquiet : x.Quiet (· = c) c 0) (hreturns : script.Returns value) (role : Role) :
    ∃ y, x.play nesting role c script = (.ok value, y) ∧ y.Quiet (· = c) c 0 ∧
      Calm (· = c) x y := by
  have hgentle := gentle_play hnesting hquiet role c script
  refine ⟨(x.play nesting role c script).2, ?_, hgentle.quiet, hgentle.calm⟩
  rcases play_of_returns hreturns role c x with hvalue | hstuck
  · rw [← hvalue]
  · exact absurd hstuck hgentle.unstuck

lemma invokeBody_ok (hyields : plan.Yields outputs answers) (hnesting : nesting.IsGentle (· = c))
    (h : Underway plan feed listed c n m done x) :
    ∃ y, x.invokeBody nesting c = (.ok (outputs (n + 1)), y) ∧ y.Quiet (· = c) c 0 ∧
      (y.isDisposed c = false → Underway plan feed listed c (n + 1) m (done ++ [.body]) y) := by
  let counted := (x.modify c ({ · with bodyCalls := n + 1 })).note (.invoked c (n + 1))
  have hcounted : Underway plan feed listed c (n + 1) m (done ++ [.body]) counted := by
    refine ⟨?_, ?_, ?_⟩
    · change (x.modify c _).call? c = _
      rw [call?_modify_self, h.call]
      rfl
    · have hquiet := h.quiet.modify c (f := ({ · with bodyCalls := n + 1 })) (fun _ => rfl)
        fun _ _ => rfl
      exact hquiet.note _
    · have hact : Entry.act? c (.invoked c (n + 1)) = some .body := if_pos rfl
      rw [works_note hact, ← h.works]
      rfl
  obtain ⟨y, hplay, hquiet, hcalm⟩ := play_ok hnesting hcounted.quiet (hyields.body (n + 1)) .body
  refine ⟨y, ?_, hquiet, hcounted.calm hquiet hcalm⟩
  unfold invokeBody enter
  rw [h.call]
  exact hplay

lemma consultPredicate_ok (hyields : plan.Yields outputs answers)
    (hnesting : nesting.IsGentle (· = c)) (h : Underway plan feed listed c n m done x)
    {predicate : Retry.Predicate} (hpredicate : plan.rule.predicate = some predicate) (fault : Fault) :
    ∃ y, x.consultPredicate nesting c fault = (.ok (answers (m + 1) fault), y) ∧
      y.Quiet (· = c) c 0 ∧
      (y.isDisposed c = false → Underway plan feed listed c n (m + 1) done y) := by
  let counted := x.modify c ({ · with predicateCalls := m + 1 })
  have hcounted : Underway plan feed listed c n (m + 1) done counted := by
    refine ⟨?_, ?_, ?_⟩
    · rw [call?_modify_self, h.call]
      rfl
    · exact h.quiet.modify c (fun _ => rfl) fun _ _ => rfl
    · exact h.works
  obtain ⟨y, hplay, hquiet, hcalm⟩ := play_ok hnesting hcounted.quiet
    (hyields.predicate predicate hpredicate (m + 1) fault) .predicate
  refine ⟨y.note (.consulted c fault (answers (m + 1) fault)), ?_, hquiet.note _, fun hlive => ?_⟩
  · have hasked : (plan.underway feed listed n m).plan.rule.predicate = some predicate := hpredicate
    unfold consultPredicate
    rw [h.call]
    dsimp only
    rw [hasked]
    dsimp only
    split
    case h_1 again z hended =>
      cases hplay.symm.trans hended
      rfl
    case h_2 halt z hended => cases hplay.symm.trans hended
  · have hplayed := hcounted.calm hquiet hcalm hlive
    exact ⟨hplayed.call, hquiet.note _, (works_congr (acts_note_of_none rfl)).trans hplayed.works⟩

/-- Asking about the fault of an attempt: without a predicate the answer is known. -/
lemma follow_judgeFault (hyields : plan.Yields outputs answers) (hnesting : ∀ C, nesting.IsGentle C)
    {fault : Fault} (hfault : outputs (n + 1) = .error fault)
    (h : Underway plan feed listed c (n + 1) (plan.timesAsked outputs n) done x)
    {next : Bool → Course} (htidy : ∀ again, (next again).Tidy 0)
    (hlive : (follow nesting c (Course.judgeFault plan fault next) x).2.isDisposed c = false) :
    ∃ again y,
      follow nesting c (Course.judgeFault plan fault next) x = follow nesting c (next again) y ∧
      Underway plan feed listed c (n + 1) (plan.timesAsked outputs (n + 1)) done y ∧
      (again = false ↔ plan.rule.predicate.isSome = true ∧
        answers (faultCount outputs (n + 1)) fault = false) := by
  have hcount : faultCount outputs (n + 1) = faultCount outputs n + 1 := by
    rw [faultCount, hfault]
  cases hpredicate : plan.rule.predicate with
  | none =>
    have hjudge : Course.judgeFault plan fault next = next true := by
      unfold Course.judgeFault Retry.Rule.answer
      rw [hpredicate]
    have hasked : plan.timesAsked outputs (n + 1) = plan.timesAsked outputs n := by
      simp [Plan.timesAsked, hpredicate]
    refine ⟨true, x, by rw [hjudge], by rwa [hasked], by simp⟩
  | some predicate =>
    have hjudge : Course.judgeFault plan fault next = .consult fault next := by
      unfold Course.judgeFault Retry.Rule.answer
      rw [hpredicate]
    have hasked : plan.timesAsked outputs n = faultCount outputs n := by
      simp [Plan.timesAsked, hpredicate]
    have hafter : plan.timesAsked outputs (n + 1) = faultCount outputs n + 1 := by
      simp [Plan.timesAsked, hpredicate, hcount]
    rw [hasked] at h
    obtain ⟨y, hconsult, hquiet, hy⟩ := consultPredicate_ok hyields (hnesting _) h hpredicate fault
    have hfollow : follow nesting c (Course.judgeFault plan fault next) x =
        follow nesting c (next (answers (faultCount outputs n + 1) fault)) y := by
      rw [hjudge, follow, hconsult]
    rw [hfollow] at hlive
    have hafterwards := hy (live_of_follow (hnesting _) (htidy _) hquiet hlive)
    refine ⟨answers (faultCount outputs n + 1) fault, y, hfollow, by rwa [hafter], ?_⟩
    rw [hcount]
    simp

/-- Another attempt is announced if somebody asks for it and the limit allows it. -/
lemma follow_decision (hdelays : ∀ retry < plan.limit.retries, ∃ delay,
      plan.backoff.delay retry (plan.draws retry) = .ok delay)
    {p : Progress} (hp : p.attempt = n + 1) (hlimit : n < plan.limit.maxAttempts) (again : Bool)
    (hbudget : n + 1 < plan.limit.maxAttempts → plan.limit.retries ≤ p.budget.remaining + (n + 1))
    (h : Underway plan feed listed c (n + 1) m done x) (retry : Duration → Course) (last : Course) :
    ((again = false ∨ n + 1 = plan.limit.maxAttempts) ∧
      follow nesting c (if again && p.mayRetry plan.limit then Course.schedule plan p retry else last) x =
        follow nesting c last x) ∨
    (¬ (again = false ∨ n + 1 = plan.limit.maxAttempts) ∧ ∃ delay y,
      plan.GoesOn (n + 1) p delay ∧
      follow nesting c (if again && p.mayRetry plan.limit then Course.schedule plan p retry else last) x =
        follow nesting c (retry delay) y ∧
      Underway plan feed listed c (n + 1) m done y) := by
  by_cases hstop : again = false ∨ n + 1 = plan.limit.maxAttempts
  · have hlast : ¬ (again && p.mayRetry plan.limit) = true := by
      rcases hstop with hno | hmax
      · simp [hno]
      · simp [Progress.mayRetry, hp, hmax]
    rw [if_neg hlast]
    exact Or.inl ⟨hstop, rfl⟩
  · have hmay : p.mayRetry plan.limit = true := by
      unfold Progress.mayRetry
      rw [hp, decide_eq_true_iff]
      omega
    have hagain : (again && p.mayRetry plan.limit) = true := by
      rw [hmay, Bool.and_true]
      cases again with
      | false => exact absurd (Or.inl rfl) hstop
      | true => rfl
    have hindex := Progress.retryIndex_lt (by omega) hmay
    have hlt : n + 1 < plan.limit.maxAttempts := by
      rw [← hp]
      exact Progress.attempt_lt hmay
    obtain ⟨delay, hdelay⟩ := hdelays p.retryIndex hindex
    refine Or.inr ⟨hstop, delay, _, ⟨hp, hlt, hbudget hlt, hindex, hdelay⟩, ?_,
      h.tell { p.notice .retryScheduled with delay := some delay }⟩
    rw [if_pos hagain, Course.schedule, hdelay, follow]

/-- Whether an unsuccessful result leads to another attempt is up to the flag alone, as long as the
budget has not fallen behind. -/
lemma signalled_eq {p : Progress} (hlimit : n + 1 < plan.limit.maxAttempts)
    (hbudget : plan.limit.retries ≤ p.budget.remaining + n) :
    ((p.spend plan.rule.retryUnsuccessful).1 && Course.judgeUnsuccessful plan) =
      plan.rule.retryUnsuccessful := by
  have hleft : 0 < p.budget.remaining := by
    have hretries : n + 1 < plan.limit.retries + 1 := hlimit
    omega
  rw [Progress.spend_fst hleft]
  cases hflag : plan.rule.retryUnsuccessful with
  | false => rfl
  | true =>
    unfold Course.judgeUnsuccessful Retry.Rule.answer
    cases plan.rule.predicate with
    | none => rfl
    | some predicate => exact hflag

/-- The judgement of attempt `n + 1`: the run settles for it, or there is another attempt to come
and the budget has not fallen behind. -/
lemma follow_settle (hyields : plan.Yields outputs answers) (hnesting : ∀ C, nesting.IsGentle C)
    (hdelays : ∀ retry < plan.limit.retries, ∃ delay,
      plan.backoff.delay retry (plan.draws retry) = .ok delay)
    {p : Progress} (hp : p.attempt = n + 1) (hlimit : n < plan.limit.maxAttempts)
    (hbudget : plan.limit.retries ≤ p.budget.remaining + n)
    (h : Underway plan feed listed c (n + 1) (plan.timesAsked outputs n) done x)
    {retry : Progress → Duration → Course} {finish : Progress → Verdict → Course}
    (hretry : ∀ q delay, (retry q delay).Tidy 0) (hfinish : ∀ q verdict, (finish q verdict).Tidy 0)
    (hlive : (follow nesting c (Course.settle plan p (outputs (n + 1)) retry finish) x).2.isDisposed c =
      false) :
    (plan.StopsAt outputs answers (n + 1) ∧ ∃ q y,
      follow nesting c (Course.settle plan p (outputs (n + 1)) retry finish) x =
        follow nesting c (finish q (.ofOutput (outputs (n + 1)))) y ∧
      Underway plan feed listed c (n + 1) (plan.timesAsked outputs (n + 1)) done y) ∨
    (¬ plan.StopsAt outputs answers (n + 1) ∧ ∃ q delay y, plan.GoesOn (n + 1) q delay ∧
      follow nesting c (Course.settle plan p (outputs (n + 1)) retry finish) x =
        follow nesting c (retry q delay) y ∧
      Underway plan feed listed c (n + 1) (plan.timesAsked outputs (n + 1)) done y) := by
  cases houtput : outputs (n + 1) with
  | ok result =>
    rw [← plan.timesAsked_of_ok houtput] at h
    rw [plan.stopsAt_of_ok houtput]
    by_cases hsuccess : result.succeeded = true
    · refine Or.inl ⟨Or.inl hsuccess, p, x, ?_, h⟩
      rw [Course.settle]
      exact congrArg (follow nesting c · x) (if_pos hsuccess)
    · have hspent : (p.spend plan.rule.retryUnsuccessful).2.attempt = n + 1 := by
        rw [p.attempt_spend, hp]
      have hbudget' := p.remaining_le_spend plan.rule.retryUnsuccessful
      have hagain (hlast : n + 1 < plan.limit.maxAttempts) := signalled_eq hlast hbudget
      -- The draw on the budget is over; from here on only what it left counts.
      generalize hspend : p.spend plan.rule.retryUnsuccessful = spent at hspent hbudget' hagain
      obtain ⟨signalled, q⟩ := spent
      dsimp only at hspent hbudget' hagain
      have hsettle : follow nesting c (Course.settle plan p (.ok result) retry finish) x =
          follow nesting c (if signalled && Course.judgeUnsuccessful plan && q.mayRetry plan.limit then
            Course.schedule plan q (retry q) else finish q (.success result))
            (x.tell c { q.notice .resultUnsuccessful with remaining := some q.budget.remaining }) := by
        rw [Course.settle, hspend]
        exact congrArg (follow nesting c · x) (if_neg hsuccess)
      have hstops : result.succeeded = true ∨ plan.rule.retryUnsuccessful = false ∨
          n + 1 = plan.limit.maxAttempts ↔ (signalled && Course.judgeUnsuccessful plan) = false ∨
          n + 1 = plan.limit.maxAttempts := by
        by_cases hlast : n + 1 = plan.limit.maxAttempts
        · simp [hlast]
        · rw [hagain (by omega)]
          simp [hsuccess]
      rw [hstops]
      have hreported := h.tell { q.notice .resultUnsuccessful with remaining := some q.budget.remaining }
      rcases follow_decision hdelays hspent hlimit (signalled && Course.judgeUnsuccessful plan)
        (fun _ => by omega) hreported (retry q) (finish q (.success result)) with
        ⟨hstop, hlast⟩ | ⟨hstop, delay, z, hgoes, hretry, hz⟩
      · exact Or.inl ⟨hstop, q, _, hsettle.trans hlast, hreported⟩
      · exact Or.inr ⟨hstop, q, delay, z, hgoes, hsettle.trans hretry, hz⟩
  | error fault =>
    have htidy (again : Bool) : (if again && p.mayRetry plan.limit then
        Course.schedule plan p (retry p) else finish p (.failure fault)).Tidy 0 := by
      split
      · exact Course.tidy_schedule (hretry p) p
      · exact hfinish p (.failure fault)
    rw [houtput] at hlive
    obtain ⟨again, y, hjudge, hy, hagain⟩ := follow_judgeFault hyields hnesting houtput
      (h.tell { p.notice .attemptFailed with error := some fault.text }) htidy hlive
    have hsettle : follow nesting c (Course.settle plan p (.error fault) retry finish) x = _ := hjudge
    rw [plan.stopsAt_of_error houtput, ← hagain]
    rcases follow_decision hdelays hp hlimit again (fun _ => by omega) hy (retry p)
      (finish p (.failure fault)) with ⟨hstop, hlast⟩ | ⟨hstop, delay, z, hgoes, hretry, hz⟩
    · exact Or.inl ⟨hstop, p, y, hsettle.trans hlast, hy⟩
    · exact Or.inr ⟨hstop, p, delay, z, hgoes, hsettle.trans hretry, hz⟩

lemma callBack_ok (hyields : plan.Yields outputs answers) (hnesting : nesting.IsGentle (· = c))
    (hquiet : x.Quiet (· = c) c 0) {call : Call} (hcall : x.call? c = some call)
    (hsuccess : call.onSuccess = plan.onSuccess) (hfailure : call.onFailure = plan.onFailure)
    (output : Output) : ∃ y, x.callBack nesting c (.ofOutput output) = (.ok (), y) ∧
      y.works c = x.works c ++ plan.deliveries output := by
  have hdelivered (y : Exchange) (verdict : Verdict) :
      (y.note (.delivered c verdict)).works c = y.works c ++ [.callback verdict] := by
    have hact : Entry.act? c (.delivered c verdict) = some (.callback verdict) := if_pos rfl
    rw [works_note hact]
    rfl
  cases output with
  | ok result =>
    unfold callBack enter Verdict.ofOutput Plan.deliveries
    rw [hcall]
    dsimp only
    cases hcallback : call.onSuccess with
    | none =>
      refine ⟨x, rfl, ?_⟩
      rw [← hsuccess, hcallback]
      simp
    | some callback =>
      have hused := hquiet.modify c (f := ({ · with onSuccess := none })) (fun _ => rfl) fun _ _ => rfl
      obtain ⟨y, hplay, -, hcalm⟩ := play_ok hnesting (hused.note (.delivered c (.success result)))
        (hyields.onSuccess callback (hsuccess.symm.trans hcallback) result) .onSuccess
      refine ⟨y, hplay, (works_congr (hcalm.acts c rfl)).trans ?_⟩
      rw [hdelivered, ← hsuccess, hcallback]
      rfl
  | error fault =>
    unfold callBack enter Verdict.ofOutput Plan.deliveries
    rw [hcall]
    dsimp only
    cases hcallback : call.onFailure with
    | none =>
      refine ⟨x, rfl, ?_⟩
      rw [← hfailure, hcallback]
      simp
    | some callback =>
      have hused := hquiet.modify c (f := ({ · with onFailure := none })) (fun _ => rfl) fun _ _ => rfl
      obtain ⟨y, hplay, -, hcalm⟩ := play_ok hnesting (hused.note (.delivered c (.failure fault)))
        (hyields.onFailure callback (hfailure.symm.trans hcallback) fault) .onFailure
      refine ⟨y, hplay, (works_congr (hcalm.acts c rfl)).trans ?_⟩
      rw [hdelivered, ← hfailure, hcallback]
      rfl

/-- The verdict goes through the outbox to its callback. -/
lemma follow_deliver (hyields : plan.Yields outputs answers) (hnesting : nesting.IsGentle (· = c))
    (h : Underway plan feed listed c n m done x) (q : Progress) (output : Output) :
    (follow nesting c (Course.deliver q (.ofOutput output)) x).1 = .ok () ∧
      (follow nesting c (Course.deliver q (.ofOutput output)) x).2.works c =
        done ++ plan.deliveries output := by
  let verdict := Verdict.ofOutput output
  let empty : Delivery.Outbox Verdict := .create plan.delivery.outboxRoom plan.delivery.overflow
  let pushed := x.modify c ({ · with outbox := empty.append verdict })
  let popped := pushed.modify c ({ · with outbox := empty })
  have hpush : x.pushVerdict c verdict = (.ok (.ok 1), pushed) := by
    have hroom : (plan.underway feed listed n m).outbox.push verdict =
        .accepted (empty.append verdict) :=
      Delivery.Outbox.push_of_empty rfl rfl verdict
    unfold pushVerdict
    rw [h.call]
    dsimp only
    rw [hroom]
    rfl
  have hpushed : pushed.call? c =
      some { plan.underway feed listed n m with outbox := empty.append verdict } := by
    rw [call?_modify_self, h.call]
    rfl
  have hpop : pushed.popVerdict c = (some verdict, popped) := by
    unfold popVerdict
    rw [hpushed]
    rfl
  have hpopped : popped.call? c = some (plan.underway feed listed n m) := by
    exact call?_modify_of_known hpushed _
  have hquiet : popped.Quiet (· = c) c 0 := (h.quiet.setOutbox rfl).setOutbox rfl
  have htold := hquiet.tell c (Course.verdictNotice q verdict)
  have hcall : (popped.tell c (Course.verdictNotice q verdict)).call? c =
      some (plan.underway feed listed n m) := by
    rw [call?_tell, hpopped]
  obtain ⟨y, hcallback, hworks⟩ := callBack_ok hyields hnesting htold hcall rfl rfl output
  have hfollow : follow nesting c (Course.deliver q verdict) x = (.ok (), y) := by
    rw [Course.deliver, follow_askDisposed, h.isDisposed]
    change follow nesting c (.push verdict _) x = _
    rw [follow, hpush]
    change follow nesting c (.pop _) pushed = _
    rw [follow, hpop]
    change follow nesting c (.askDisposed _) popped = _
    rw [follow, hpopped]
    change follow nesting c (.callback verdict .finished) _ = _
    rw [follow, hcallback]
    rfl
  rw [hfollow]
  refine ⟨rfl, hworks.trans ?_⟩
  rw [works_tell, ← h.works]
  rfl

/-- The attempts from some progress on: the body is invoked up to the first attempt that the plan
settles for, and the output of this one is delivered. -/
theorem follow_attempts (hyields : plan.Yields outputs answers) (hnesting : ∀ C, nesting.IsGentle C)
    (hdelays : ∀ retry < plan.limit.retries, ∃ delay,
      plan.backoff.delay retry (plan.draws retry) = .ok delay)
    (left : Nat) {p : Progress} (hleft : p.attempt + left = plan.limit.maxAttempts) (hpos : 0 < left)
    (hbudget : plan.limit.retries ≤ p.budget.remaining + p.attempt)
    (h : Underway plan feed listed c p.attempt (plan.timesAsked outputs p.attempt) done x)
    (hfits : plan.FitsClock (follow nesting c (Course.blockingAttempts plan left p) x).2.clock)
    (hlive : (follow nesting c (Course.blockingAttempts plan left p) x).2.isDisposed c = false) :
    ∃ k, p.attempt < k ∧ k ≤ plan.limit.maxAttempts ∧ plan.StopsAt outputs answers k ∧
      (∀ j, p.attempt < j → j < k → ¬ plan.StopsAt outputs answers j) ∧
      (follow nesting c (Course.blockingAttempts plan left p) x).1 = .ok () ∧
      (follow nesting c (Course.blockingAttempts plan left p) x).2.works c =
        done ++ List.replicate (k - p.attempt) .body ++ plan.deliveries (outputs k) := by
  -- `hbudget` is what each attempt preserves: the limit is reached before the budget is used up.
  induction left generalizing p x done with
  | zero => omega
  | succ left ih =>
    let again (q : Progress) (delay : Duration) : Course :=
      .pause delay (.blockingAttempts plan left q)
    have hagain (q : Progress) (delay : Duration) : (again q delay).Tidy 0 :=
      Course.tidy_pause (Course.tidy_blockingAttempts plan left q) delay
    obtain ⟨y, hinvoke, hquiet, hy⟩ := invokeBody_ok hyields (hnesting _)
      (h.tell (p.begin.notice .attemptStarting))
    have hbegun : follow nesting c (Course.blockingAttempts plan (left + 1) p) x =
        follow nesting c
          (Course.settle plan p.begin (outputs (p.attempt + 1)) again Course.deliver) y := by
      rw [Course.blockingAttempts, follow_askDisposed, h.isDisposed]
      change follow nesting c (.invoke _) _ = _
      rw [follow, hinvoke]
    rw [hbegun] at hfits hlive ⊢
    have hinvoked := hy (live_of_follow (hnesting _)
      (Course.tidy_settle hagain Course.tidy_deliver p.begin _) hquiet hlive)
    rcases follow_settle hyields hnesting hdelays (p := p.begin) rfl (by omega) hbudget hinvoked hagain
      Course.tidy_deliver hlive with ⟨hstop, q, z, hsettle, hz⟩ | ⟨hgoes, q, delay, z, hq, hsettle, hz⟩
    · obtain ⟨hhow, hworks⟩ := follow_deliver hyields (hnesting _) hz q (outputs (p.attempt + 1))
      refine ⟨p.attempt + 1, by omega, by omega, hstop, by omega, ?_, ?_⟩
      · rw [hsettle]
        exact hhow
      · have hone : p.attempt + 1 - p.attempt = 1 := by omega
        rw [hsettle, hworks, hone]
        rfl
    · rw [hsettle] at hfits hlive ⊢
      obtain ⟨w, ⟨hwquiet, hcalm⟩, hpause⟩ := follow_pause
        (I := fun w => w.Quiet (· = c) c 0 ∧ Calm (· = c) z w)
        (fun w nanos hw => ⟨hw.1.elapse nanos, hw.2.trans (.elapse w nanos)⟩)
        ⟨hz.quiet, .refl _ z⟩ delay (hfits _ hq.index delay hq.delay)
      rw [hpause] at hfits hlive ⊢
      have hw := hz.calm hwquiet hcalm (live_of_follow (hnesting _)
        (Course.tidy_blockingAttempts plan left q) hwquiet hlive)
      rw [← hq.attempt] at hw
      obtain ⟨k, hlt, hle, hstops, hleast, hhow, hworks⟩ := ih (p := q) (by rw [hq.attempt]; omega)
        (by have := hq.within; omega) (by rw [hq.attempt]; exact hq.budget) hw hfits hlive
      rw [hq.attempt] at hlt hleast hworks
      refine ⟨k, by omega, hle, hstops, fun j hj hjk => ?_, hhow, ?_⟩
      · rcases Nat.lt_or_eq_of_le (Nat.succ_le_of_lt hj) with hj | rfl
        · exact hleast j hj hjk
        · exact hgoes
      · have hcount : k - p.attempt = k - (p.attempt + 1) + 1 := by omega
        rw [hworks, hcount, List.replicate_succ]
        simp

/-- The run of call `c` does what the plan says of its outputs: it ends, its body has been invoked
up to the first attempt that the plan settles for, and the output of this attempt is delivered. -/
def MeetsReference (x : Exchange) (c : CallId) (plan : Plan) (outputs : Nat → Output)
    (answers : Nat → Fault → Bool) : Prop :=
  ∃ k, 1 ≤ k ∧ k ≤ plan.limit.retries + 1 ∧ plan.StopsAt outputs answers k ∧
    (∀ j, 1 ≤ j → j < k → ¬ plan.StopsAt outputs answers j) ∧
    (x.run c).1 = .ended (.ok ()) ∧
    (x.run c).2.works c = x.works c ++ List.replicate k .body ++ plan.deliveries (outputs k)

/-- A newly built call meets the reference if all outboxes are empty when it begins to run. -/
lemma meetsReference_of_fresh (hcall : x.call? c = some (plan.toCall feed listed))
    (hsettled : x.Settled) (hyields : plan.Yields outputs answers)
    (hlive : (x.run c).2.isDisposed c = false)
    (hdelays : ∀ retry < plan.limit.retries, ∃ delay,
      plan.backoff.delay retry (plan.draws retry) = .ok delay)
    (hfits : plan.FitsClock (x.run c).2.clock) : x.MeetsReference c plan outputs answers := by
  have hrunnable : x.runnable c = .ok plan := by
    unfold runnable
    rw [hcall]
    rfl
  obtain ⟨depth, hrun⟩ := run_of_ok hrunnable
  dsimp only at hrun
  let begun := (x.setPresence c .busy).modify c ({ · with handle := { state := .running } })
  have hbusy : (x.setPresence c .busy).call? c =
      some { plan.toCall feed listed with presence := .busy } := by
    exact call?_modify_of_known hcall _
  have hstart : (x.setPresence c .busy).start c = (true, begun) := by
    unfold start
    rw [hbusy]
    rfl
  have hbegun : Underway plan feed listed c 0 (plan.timesAsked outputs 0) (x.works c) begun := by
    refine ⟨?_, ?_, rfl⟩
    · have hasked : plan.timesAsked outputs 0 = 0 := ite_self 0
      rw [call?_modify_self, hbusy, hasked]
      rfl
    · have hquiet : Quiet (· = c) c 0 (x.setPresence c .busy) :=
        hsettled.quiet_setPresence ⟨_, hcall⟩ (by decide)
      exact hquiet.modify c (f := ({ · with handle := { state := .running } })) (fun _ => rfl)
        fun _ _ => rfl
  have hfollow : follow (runWithin depth) c (.blocking plan) (x.setPresence c .busy) =
      follow (runWithin depth) c
        (Course.blockingAttempts plan plan.limit.maxAttempts (.start plan.limit)) begun := by
    rw [Course.blocking, follow, hstart]
    rfl
  rw [hfollow] at hrun
  unfold MeetsReference
  rw [hrun] at hfits hlive ⊢
  rw [isDisposed_setPresence] at hlive
  obtain ⟨k, hlt, hle, hstops, hleast, hhow, hworks⟩ := follow_attempts hyields
    (isGentle_runWithin · depth) hdelays plan.limit.maxAttempts (p := .start plan.limit)
    (Nat.zero_add _) (Nat.succ_pos _) (Nat.le_refl _) hbegun hfits hlive
  exact ⟨k, hlt, hle, hstops, hleast, congrArg RunReply.ended hhow, hworks⟩

/-- The reference semantics of a run. The call is newly built, its handle is not disposed by the end
of the run, none of its user code panics, and the delays of its plan can be had and added to the
clock. The run ends, and its body has been invoked as often as it takes to come to an attempt that
the plan settles for, which the last one within the limit is at any rate. The output of this attempt
is delivered. -/
theorem run_meets_reference (x : Exchange) (c : CallId) (plan : Plan) (feed : Option FeedId)
    (listed : Bool) (outputs : Nat → Output) (answers : Nat → Fault → Bool)
    (hcall : x.call? c = some (plan.toCall feed listed)) (hsettled : x.Settled)
    (hyields : plan.Yields outputs answers) (hlive : (x.run c).2.isDisposed c = false)
    (hdelays : ∀ retry < plan.limit.retries, ∃ delay,
      plan.backoff.delay retry (plan.draws retry) = .ok delay)
    (hfits : plan.FitsClock (x.run c).2.clock) :
    ∃ k, 1 ≤ k ∧ k ≤ plan.limit.retries + 1 ∧ plan.StopsAt outputs answers k ∧
      (∀ j, 1 ≤ j → j < k → ¬ plan.StopsAt outputs answers j) ∧
      (x.run c).1 = .ended (.ok ()) ∧
      (x.run c).2.works c =
        x.works c ++ List.replicate k .body ++ plan.deliveries (outputs k) :=
  meetsReference_of_fresh hcall hsettled hyields hlive hdelays hfits

/-- The outputs of a call that is canceled, then brings a result that is no success, and then one
that is. -/
def thirdTimeLucky (n : Nat) : Output :=
  if n = 1 then .error .canceled else .ok ⟨n ≠ 2, "done"⟩

/-- A call with such outputs, with a predicate and with both callbacks, on an exchange of its own. -/
def attended : Plan :=
  { Plan.oneShot (fun n => .done (thirdTimeLucky n)) 2 true (some fun _ _ => .done true)
      (some fun _ => .done ()) (some fun _ => .done ()) (.usual .latest) with
    backoff := .usual }

lemma settled_addPlan_attended : (addPlan {} attended true).Settled := by
  intro c call hcall
  cases c with
  | zero =>
    obtain rfl : attended.toCall none true = call := Option.some.inj hcall
    rfl
  | succ c => cases hcall

lemma delay_attended {retry : Nat} (h : retry < 2) :
    attended.backoff.delay retry (attended.draws retry) = .ok (.ofMillis 100) := by
  obtain rfl | rfl : retry = 0 ∨ retry = 1 := by omega
  · exact eq_ok_of_toOption (by decide +kernel)
  · exact eq_ok_of_toOption (by decide +kernel)

/-- The predicate accepts the cancellation and the second result is retried, so the third one is
delivered. -/
theorem attended_run : ((addPlan {} attended true).run 0).1 = .ended (.ok ()) ∧
    ((addPlan {} attended true).run 0).2.works 0 =
      [.body, .body, .body, .callback (.success ⟨true, "done"⟩)] := by
  obtain ⟨k, hpos, hle, hstops, -, hhow, hworks⟩ := run_meets_reference (addPlan {} attended true) 0
    attended none true thirdTimeLucky (fun _ _ => true) rfl settled_addPlan_attended
    ⟨fun _ => rfl, fun _ h n fault => by cases h; rfl, fun _ h result => by cases h; rfl,
      fun _ h fault => by cases h; rfl⟩
    (by decide +kernel) (fun retry hretry => ⟨_, delay_attended hretry⟩)
    (fun retry hretry delay hdelay => by
      rw [delay_attended hretry] at hdelay
      cases hdelay
      decide +kernel)
  have hfirst : ¬ attended.StopsAt thirdTimeLucky (fun _ _ => true) 1 := by
    rintro (⟨-, hrejected⟩ | hlast)
    · cases hrejected
    · cases hlast
  have hsecond : ¬ attended.StopsAt thirdTimeLucky (fun _ _ => true) 2 := by
    rintro (hsuccess | hgivesUp | hlast)
    · cases hsuccess
    · cases hgivesUp
    · cases hlast
  have hk : k = 3 := by
    have hone : k ≠ 1 := fun hone => hfirst (hone ▸ hstops)
    have htwo : k ≠ 2 := fun htwo => hsecond (htwo ▸ hstops)
    have hthree : k ≤ 3 := hle
    omega
  subst hk
  exact ⟨hhow, hworks⟩

end Exchange

namespace Session

open Exchange

/-- The run of a call that no command has touched yet meets the reference, whatever was done with
the other calls of the session. -/
theorem meetsReference_after (capacities : List Nat) (drafts : List Draft)
    (usual : Delivery.Settings) (draws : Nat → Nat → Nat) (quiet : Bool) (commands : List Command)
    {c : CallId} {plan : Plan} {feed : Option FeedId} {listed : Bool} {outputs : Nat → Output}
    {answers : Nat → Fault → Bool} :
    let x := ((openWith capacities drafts usual draws quiet).2.steps commands).2.exchange
    x.call? c = some (plan.toCall feed listed) → plan.Yields outputs answers →
    (x.run c).2.isDisposed c = false →
    (∀ retry < plan.limit.retries, ∃ delay,
      plan.backoff.delay retry (plan.draws retry) = .ok delay) →
    plan.FitsClock (x.run c).2.clock → x.MeetsReference c plan outputs answers := by
  intro x hcall
  have hopened := settled_openWith capacities drafts usual draws quiet
  exact meetsReference_of_fresh hcall (settled_steps hopened commands)

end Session

end Redial
