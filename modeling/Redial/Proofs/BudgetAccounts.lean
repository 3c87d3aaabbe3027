import Redial.Proofs.Settlements

/-!
# What is left of the budget

Every attempt counts towards the limit, and only unsuccessful results draw on the budget. So the
budget is never behind the attempts that are left, and it can run out in the last attempt at the
earliest, where the limit permits no retry anyway. What the budget shows is the number of unsuccessful
results; it decides nothing.
-/

namespace Redial

/-- The number of unsuccessful results that the body returned. -/
def unsuccessfulReturned (strides : List Stride) : Nat :=
  strides.countP fun
    | .bodyEnded output => isUnsuccessful output
    | _ => false

namespace Plan

/-- The retries left for unsuccessful results after so many of them. -/
def remainingAfter (plan : Plan) (unsuccessful : Nat) : Nat :=
  if plan.rule.retryUnsuccessful then
    plan.limit.retries - min unsuccessful plan.limit.retries
  else plan.limit.retries

/-- What a run would do if it did not look at its budget. -/
def unmetered (plan : Plan) (p : Progress) : Bool → Output → Settlement :=
  plan.judge p true

end Plan

/-- The outputs that a run has settled so far, and the progress they have led to. Each of them asked
for another attempt, whatever the rule said about the faults among them. -/
inductive Fed (plan : Plan) : List Output → Progress → Prop where
  | start : Fed plan [] (.start plan.limit)
  | again {outputs p output accepted delay} (h : Fed plan outputs p)
      (hsettled : plan.settlement p.begin accepted output = .again delay) :
      Fed plan (outputs ++ [output]) (p.begin.charge plan output)

namespace Plan

variable {plan : Plan} {p : Progress} {output : Output}

lemma remainingAfter_zero (plan : Plan) : plan.remainingAfter 0 = plan.limit.retries := by
  unfold remainingAfter
  split
  · rw [Nat.zero_min, Nat.sub_zero]
  · rfl

lemma remainingAfter_succ (plan : Plan) (n : Nat) :
    plan.remainingAfter (n + 1) =
      if plan.rule.retryUnsuccessful then plan.remainingAfter n - 1 else plan.remainingAfter n := by
  unfold remainingAfter
  split
  · omega
  · rfl

/-- The unsuccessful results so far leave at least a retry for each of the other attempts. -/
lemma retries_le_remainingAfter (plan : Plan) (n : Nat) :
    plan.limit.retries ≤ plan.remainingAfter n + n := by
  unfold remainingAfter
  split
  · omega
  · omega

/-- A run is done after an attempt, or the limit permits another one and it is up to the schedule. -/
lemma judge_cases (plan : Plan) (p : Progress) (inBudget accepted : Bool) (output : Output) :
    (∃ verdict, plan.judge p inBudget accepted output = .done verdict) ∨
    (plan.judge p inBudget accepted output = plan.nextAttempt p ∧
      p.mayRetry plan.limit = true) := by
  cases output with
  | ok result =>
    unfold judge
    dsimp only
    split
    · exact Or.inl ⟨_, rfl⟩
    · split
      · rename_i hmay
        exact Or.inr ⟨rfl, (Bool.and_eq_true_iff.mp hmay).2⟩
      · exact Or.inl ⟨_, rfl⟩
  | error fault =>
    unfold judge
    dsimp only
    split
    · rename_i hmay
      exact Or.inr ⟨rfl, (Bool.and_eq_true_iff.mp hmay).2⟩
    · exact Or.inl ⟨_, rfl⟩

/-- There is another attempt only within the limit, and after the delay of the schedule. -/
lemma again_of_judge {inBudget accepted : Bool} {delay : Duration}
    (h : plan.judge p inBudget accepted output = .again delay) :
    plan.nextAttempt p = .again delay ∧ p.mayRetry plan.limit = true := by
  rcases plan.judge_cases p inBudget accepted output with ⟨verdict, hdone⟩ | ⟨hnext, hmay⟩
  · cases hdone.symm.trans h
  · exact ⟨hnext.symm.trans h, hmay⟩

lemma attempt_lt_of_judge {inBudget accepted : Bool} {delay : Duration}
    (h : plan.judge p inBudget accepted output = .again delay) :
    p.attempt < plan.limit.maxAttempts :=
  Progress.attempt_lt (again_of_judge h).2

/-- Where the budget is empty in the last attempt only, it makes no difference. -/
lemma settlement_eq_unmetered (h : p.budget.take.1 = false → plan.limit.maxAttempts ≤ p.attempt)
    (accepted : Bool) : plan.settlement p accepted output = plan.unmetered p accepted output := by
  unfold settlement unmetered
  cases htake : p.budget.take.1 with
  | true => rfl
  | false =>
    have hmay : p.mayRetry plan.limit = false := decide_eq_false (Nat.not_lt.mpr (h htake))
    unfold judge
    rw [hmay]
    simp only [Bool.and_false]

end Plan

namespace Progress

variable {p : Progress} {plan : Plan} {n : Nat}

lemma remaining_take (budget : Retry.Budget) : budget.take.2.remaining = budget.remaining - 1 := by
  unfold Retry.Budget.take Retry.Budget.exhausted
  split
  · rename_i hempty
    rw [of_decide_eq_true hempty]
  · rfl

lemma take_eq_false {budget : Retry.Budget} : budget.take.1 = false ↔ budget.remaining = 0 := by
  unfold Retry.Budget.take Retry.Budget.exhausted
  split <;> simp_all

/-- An unsuccessful result is charged to the budget, no other output is. -/
lemma remaining_charge (h : p.budget.remaining = plan.remainingAfter n) (output : Output) :
    (p.charge plan output).budget.remaining =
      plan.remainingAfter (n + if isUnsuccessful output then 1 else 0) := by
  unfold charge
  split
  · rw [Plan.remainingAfter_succ, ← h]
    unfold spend
    split
    · exact remaining_take _
    · rfl
  · exact h

end Progress

namespace Fed

variable {plan : Plan} {outputs : List Output} {p : Progress}

lemma attempt_eq (h : Fed plan outputs p) : p.attempt = outputs.length := by
  induction h with
  | start => rfl
  | again _ _ ih => rw [Progress.attempt_charge, List.length_append, ← ih]; rfl

lemma length_lt (h : Fed plan outputs p) : outputs.length < plan.limit.maxAttempts := by
  cases h with
  | start => exact Nat.succ_pos _
  | again h hsettled =>
    rw [List.length_append, ← h.attempt_eq]
    exact Plan.attempt_lt_of_judge hsettled

lemma remaining_eq (h : Fed plan outputs p) :
    p.budget.remaining = plan.remainingAfter (outputs.countP isUnsuccessful) := by
  induction h with
  | start => exact (plan.remainingAfter_zero).symm
  | @again outputs p output _ _ h _ ih =>
    have hbegin : p.begin.budget.remaining = plan.remainingAfter (outputs.countP isUnsuccessful) := ih
    rw [List.countP_append, List.countP_singleton]
    exact Progress.remaining_charge hbegin output

/-- Each unsuccessful result was one attempt, so what is left of the budget covers the attempts that
are left. -/
lemma maxAttempts_le (h : Fed plan outputs p) :
    plan.limit.maxAttempts ≤ p.budget.remaining + (p.attempt + 1) := by
  have hcount : outputs.countP isUnsuccessful ≤ outputs.length := List.countP_le_length
  have hleft := plan.retries_le_remainingAfter (outputs.countP isUnsuccessful)
  rw [h.remaining_eq, h.attempt_eq]
  unfold Retry.Limit.maxAttempts
  omega

end Fed

/-- The event shows what is left of the budget. -/
def EventKind.showsRemaining : EventKind → Bool
  | resultUnsuccessful | callSucceeded => true
  | _ => false

/-- The watch over the budget as events show it: it counts the unsuccessful results. -/
def Plan.budgetWatch (plan : Plan) : Watch Nat where
  after? n
    | .bodyEnded output => some (n + if isUnsuccessful output then 1 else 0)
    | .told notice =>
      if notice.kind.showsRemaining ∧ notice.remaining ≠ some (plan.remainingAfter n) then none
      else some n
    | _ => some n
  MayEnd _ := True

namespace Plan

variable {plan : Plan} {n : Nat}

lemma silent_budgetWatch {notice : Notice} (h : notice.kind.showsRemaining = false) :
    plan.budgetWatch.after? n (.told notice) = some n :=
  if_neg fun hshows => Bool.false_ne_true (h.symm.trans hshows.1)

lemma rests_budgetWatch (plan : Plan) (n : Nat) : plan.budgetWatch.Rests n where
  ends := trivial
  aside stride haside := by
    cases stride with
    | bodyEnded | told => cases haside
    | _ => rfl
  tells notice haside := by
    refine silent_budgetWatch ?_
    revert haside
    cases notice.kind <;> simp [EventKind.isAside, EventKind.showsRemaining]

lemma tells_budgetWatch {notice : Notice} (h : notice.remaining = some (plan.remainingAfter n)) :
    plan.budgetWatch.after? n (.told notice) = some n :=
  if_neg fun hwrong => hwrong.2 h

lemma admits_settle {p : Progress} {retry : Progress → Duration → Course}
    {finish : Progress → Verdict → Course} (hp : p.budget.remaining = plan.remainingAfter n)
    (hretry : ∀ q n delay, q.budget.remaining = plan.remainingAfter n →
      plan.budgetWatch.Admits (retry q delay) n)
    (hfinish : ∀ q n verdict, q.budget.remaining = plan.remainingAfter n →
      plan.budgetWatch.Admits (finish q verdict) n)
    (output : Output) : plan.budgetWatch.Passes n (.bodyEnded output)
      (plan.budgetWatch.Admits (Course.settle plan p output retry finish)) := by
  have hcharge := Progress.remaining_charge hp output
  let m := n + if isUnsuccessful output then 1 else 0
  have hgoes (accepted : Bool) : plan.budgetWatch.Admits ((plan.settlement p accepted output).course
      (p.charge plan output) retry finish) m := by
    refine (rests_budgetWatch plan m).settlement (fun notice hkind => ?_)
      (fun delay => hretry _ _ delay hcharge) (fun verdict => hfinish _ _ verdict hcharge) _
    exact silent_budgetWatch (by rw [hkind]; rfl)
  refine ⟨m, rfl, ?_⟩
  rw [Course.settle_eq]
  cases output with
  | ok result =>
    unfold Course.announce
    dsimp only
    split
    · exact hgoes true
    · exact ⟨m, tells_budgetWatch (congrArg some hcharge), hgoes true⟩
  | error fault =>
    refine ⟨m, silent_budgetWatch rfl, ?_⟩
    unfold Course.judgeFault
    split
    · exact hgoes _
    · exact ⟨m, rfl, fun accepted => ⟨m, rfl, hgoes accepted⟩⟩

lemma budgetWatch_suits (plan : Plan) :
    plan.budgetWatch.Suits plan fun p n => p.budget.remaining = plan.remainingAfter n where
  rests _ := rests_budgetWatch plan _
  success h _ := tells_budgetWatch (congrArg some h)
  attempt hp hretry hfinish := ⟨_, rfl, admits_settle hp hretry hfinish⟩

/-- The watch counts the unsuccessful results. -/
lemma count_of_budgetWatch {m : Nat} {strides : List Stride}
    (h : plan.budgetWatch.along m strides = some n) : n = m + unsuccessfulReturned strides := by
  induction strides generalizing m with
  | nil =>
    cases h
    rfl
  | cons stride strides ih =>
    rw [Watch.along_cons] at h
    obtain ⟨k, hk, hn⟩ := Option.bind_eq_some_iff.mp h
    have hstride : k = m + unsuccessfulReturned [stride] := by
      cases stride with
      | bodyEnded output =>
        cases hk
        rw [unsuccessfulReturned, List.countP_singleton]
      | told notice => exact (Option.some.inj (Option.ite_none_left_eq_some.mp hk).2).symm
      | _ =>
        cases hk
        rfl
    have hcount : unsuccessfulReturned (stride :: strides) =
        unsuccessfulReturned [stride] + unsuccessfulReturned strides :=
      @List.countP_append _ _ [stride] strides
    rw [ih hn, hstride, hcount, Nat.add_assoc]

/-- Events show what is left of the budget. -/
lemma remaining_of_budgetWatch {front rest : List Stride} {notice : Notice}
    (h : plan.budgetWatch.along 0 (front ++ .told notice :: rest) = some n)
    (hshows : notice.kind.showsRemaining = true) :
    notice.remaining = some (plan.remainingAfter (unsuccessfulReturned front)) := by
  obtain ⟨k, m, hk, hm, -⟩ := Watch.exists_of_along h
  have hcount : k = unsuccessfulReturned front := (count_of_budgetWatch hk).trans (Nat.zero_add _)
  obtain ⟨hpasses, -⟩ := Option.ite_none_left_eq_some.mp hm
  rw [← hcount]
  exact Decidable.not_not.mp fun hwrong => hpasses ⟨hshows, hwrong⟩

end Plan

/-- What is left of the budget is the limit less the unsuccessful results so far, or the limit
itself where these ask for no retry. It covers the attempts that are left, so it can be found empty
in the last attempt only, and a run that did not look at it would decide the same after every
output. Events show just what is left. -/
theorem budget_never_binds (plan : Plan) :
    (∀ outputs p output accepted, Fed plan outputs p →
      let q := p.begin
      q.attempt = outputs.length + 1 ∧ q.attempt ≤ plan.limit.maxAttempts ∧
      q.budget.remaining = plan.remainingAfter (outputs.countP isUnsuccessful) ∧
      plan.limit.maxAttempts - q.attempt ≤ q.budget.remaining ∧
      (q.budget.take.1 = false → q.attempt = plan.limit.maxAttempts) ∧
      (q.charge plan output).budget.remaining =
        plan.remainingAfter ((outputs ++ [output]).countP isUnsuccessful) ∧
      plan.settlement q accepted output = plan.unmetered q accepted output ∧
      ∀ retry finish, Course.settle plan q output retry finish =
        Course.announce plan q output fun accepted =>
          (plan.unmetered q accepted output).course (q.charge plan output) retry finish) ∧
    ∀ manner shared strides t, (Race.begin plan manner shared).follow strides = some t →
      ∀ front notice rest, strides.filter Stride.isOwn = front ++ .told notice :: rest →
        notice.kind.showsRemaining = true →
        notice.remaining = some (plan.remainingAfter (unsuccessfulReturned front)) := by
  constructor
  · intro outputs p output accepted h q
    have hattempt : q.attempt = outputs.length + 1 := congrArg (· + 1) h.attempt_eq
    have hmost : q.attempt ≤ plan.limit.maxAttempts := hattempt ▸ h.length_lt
    have hcovers : plan.limit.maxAttempts ≤ q.budget.remaining + q.attempt := h.maxAttempts_le
    have hremaining : q.budget.remaining = plan.remainingAfter (outputs.countP isUnsuccessful) :=
      h.remaining_eq
    have hempty (htake : q.budget.take.1 = false) : plan.limit.maxAttempts ≤ q.attempt := by
      have hnone := Progress.take_eq_false.mp htake
      omega
    refine ⟨hattempt, hmost, hremaining, Nat.sub_le_of_le_add hcovers,
      fun htake => Nat.le_antisymm hmost (hempty htake), ?_,
      Plan.settlement_eq_unmetered hempty accepted, fun retry finish => ?_⟩
    · rw [List.countP_append, List.countP_singleton]
      exact Progress.remaining_charge hremaining output
    · rw [Course.settle_eq]
      congr 1
      funext accepted
      rw [Plan.settlement_eq_unmetered hempty accepted]
  · intro manner shared strides t hfollow front notice rest hrun hshows
    obtain ⟨n, halong, -⟩ := (Plan.budgetWatch_suits plan).along_of_begin
      plan.remainingAfter_zero.symm hfollow
    rw [hrun] at halong
    exact Plan.remaining_of_budgetWatch halong hshows

/-- A call with one retry for an unsuccessful result. -/
def Plan.secondChance : Plan :=
  { Plan.canceled with limit := .ofNat 1, rule := ⟨none, true⟩ }

/-- The budget of one retry is empty in the second attempt, which is the last one, and the event
about the first unsuccessful result says so. -/
theorem budget_never_binds_secondChance :
    let unlucky : Output := .ok ⟨false, "unlucky"⟩
    let first := (Progress.start Plan.secondChance.limit).begin
    let second := (first.charge .secondChance unlucky).begin
    let front : List Stride :=
      [.started true, .looked false, .told { kind := .attemptStarting, attempt := some 1 },
        .bodyBegan, .bodyEnded unlucky]
    let notice : Notice := { kind := .resultUnsuccessful, attempt := some 1, remaining := some 0 }
    Fed .secondChance [unlucky] (first.charge .secondChance unlucky) ∧
      second.budget.take.1 = false ∧ second.attempt = Plan.secondChance.limit.maxAttempts ∧
      Plan.secondChance.settlement second true unlucky =
        Plan.secondChance.unmetered second true unlucky ∧
      (∃ t, (Race.begin .secondChance .blocking { uses := [] }).follow (front ++ [.told notice]) =
        some t) ∧
      notice.remaining = some (Plan.secondChance.remainingAfter (unsuccessfulReturned front)) := by
  intro unlucky first second front notice
  have hagain : Plan.secondChance.settlement first true unlucky = .again .zero := by
    decide +kernel
  have hfed : Fed .secondChance [unlucky] (first.charge .secondChance unlucky) :=
    Fed.again .start hagain
  obtain ⟨hsettled, hshown⟩ := budget_never_binds .secondChance
  obtain ⟨-, -, -, -, hlast, -, hsame, -⟩ := hsettled _ _ unlucky true hfed
  refine ⟨hfed, rfl, hlast rfl, hsame, ⟨_, rfl⟩, ?_⟩
  exact hshown .blocking { uses := [] } (front ++ [.told notice]) _ rfl front notice [] rfl rfl

end Redial
