import Redial.Proofs.Acts
import Redial.Proofs.Race

/-!
# What a run may do

A run has an allowance: so many invocations of its body, one callback and one event that says it is
over. Whatever answers a course gets, it keeps to the allowance of its plan, as long as its outbox
is empty when it starts. So the run keeps to it as well, wherever it is cut short.
-/

namespace Redial

namespace Act

def isBody : Act → Bool
  | body => true
  | _ => false

def isCallback : Act → Bool
  | callback _ => true
  | _ => false

/-- The event says that the run is over. -/
def isEnding : Act → Bool
  | event (kind, _) => kind.isTerminal
  | _ => false

end Act

/-- How often a run may still invoke its body and its callbacks and tell that it is over. -/
structure Allowance where
  bodies : Nat
  callbacks : Nat
  endings : Nat

namespace Allowance

variable {a b : Allowance} {acts first rest : List Act}

/-- The acts are no more than the allowance permits. -/
structure Covers (a : Allowance) (acts : List Act) : Prop where
  bodies : acts.countP Act.isBody ≤ a.bodies
  callbacks : acts.countP Act.isCallback ≤ a.callbacks
  endings : acts.countP Act.isEnding ≤ a.endings

/-- After the acts, the allowance `b` is left of `a`. -/
structure Pays (a : Allowance) (acts : List Act) (b : Allowance) : Prop where
  bodies : acts.countP Act.isBody + b.bodies ≤ a.bodies
  callbacks : acts.countP Act.isCallback + b.callbacks ≤ a.callbacks
  endings : acts.countP Act.isEnding + b.endings ≤ a.endings

lemma covers_nil (a : Allowance) : a.Covers [] := ⟨Nat.zero_le _, Nat.zero_le _, Nat.zero_le _⟩

lemma Covers.append (h : b.Covers rest) (hpays : a.Pays first b) : a.Covers (first ++ rest) := by
  obtain ⟨hbodies, hcallbacks, hendings⟩ := h
  obtain ⟨hbodies', hcallbacks', hendings'⟩ := hpays
  refine ⟨?_, ?_, ?_⟩ <;>
  · rw [List.countP_append]
    omega

lemma pays_nil (a : Allowance) : a.Pays [] a :=
  ⟨Nat.le_of_eq (Nat.zero_add _), Nat.le_of_eq (Nat.zero_add _), Nat.le_of_eq (Nat.zero_add _)⟩

/-- Who has paid for an act may as well not do it. -/
lemma Pays.nil (h : a.Pays acts b) : a.Pays [] b := by
  obtain ⟨hbodies, hcallbacks, hendings⟩ := h
  refine ⟨?_, ?_, ?_⟩ <;>
  · rw [List.countP_nil]
    omega

variable (left callbacks endings : Nat)

lemma pays_body : Pays ⟨left + 1, callbacks, endings⟩ [.body] ⟨left, callbacks, endings⟩ := by
  refine ⟨?_, ?_, ?_⟩ <;> simp [Act.isBody, Act.isCallback, Act.isEnding, Nat.add_comm]

lemma pays_callback (verdict : Verdict) :
    Pays ⟨left, callbacks + 1, endings⟩ [.callback verdict] ⟨left, callbacks, endings⟩ := by
  refine ⟨?_, ?_, ?_⟩ <;> simp [Act.isBody, Act.isCallback, Act.isEnding, Nat.add_comm]

lemma pays_ending {kind : EventKind} (hkind : kind.isTerminal = true) (attempt : Option Nat) :
    Pays ⟨left, callbacks, endings + 1⟩ [.event (kind, attempt)] ⟨left, callbacks, endings⟩ := by
  refine ⟨?_, ?_, ?_⟩ <;> simp [Act.isBody, Act.isCallback, Act.isEnding, hkind, Nat.add_comm]

lemma pays_event {kind : EventKind} (hkind : kind.isTerminal = false) (attempt : Option Nat) :
    a.Pays [.event (kind, attempt)] a := by
  refine ⟨?_, ?_, ?_⟩ <;> simp [Act.isBody, Act.isCallback, Act.isEnding, hkind]

end Allowance

/-- A run has as many invocations of its body as the plan has attempts, and is over once. -/
def Plan.allowance (plan : Plan) : Allowance := ⟨plan.limit.maxAttempts, 1, 1⟩

namespace Course

/-- Whatever the answers, a course that finds `n` verdicts in its outbox keeps to the allowance. -/
def Spends : Course → Nat → Allowance → Prop
  | finished, _, _ | panics _, _, _ => True
  | start next, n, a | askDisposed next, n, a => ∀ answer, (next answer).Spends n a
  | report notice next, n, a =>
    ∃ b, a.Pays [.event (notice.kind, notice.attempt)] b ∧ next.Spends n b
  | sleep _ next, n, a | await _ next, n, a => next.Spends n a
  | invoke next, n, a => ∃ b, a.Pays [.body] b ∧ ∀ output, (next output).Spends n b
  | dispatch next, n, a =>
    (next none).Spends n a ∧ ∃ b, a.Pays [.body] b ∧ ∀ output, (next (some output)).Spends n b
  | consult _ next, n, a => ∀ again, (next again).Spends n a
  | readClock next, n, a => ∀ now, (next now).Spends n a
  | push _ next, n, a =>
    n = 0 ∧ (next (.ok 1)).Spends 1 a ∧ ∀ reason, (next (.error reason)).Spends 0 a
  | pop next, 0, a => (next none).Spends 0 a
  | pop next, n + 1, a => ∀ verdict, (next (some verdict)).Spends n a
  | callback verdict next, n, a => ∃ b, a.Pays [.callback verdict] b ∧ next.Spends n b

variable {plan : Plan} {next : Course} {a : Allowance}

lemma spends_report {notice : Notice} (hkind : notice.kind.isTerminal = false)
    (h : next.Spends 0 a) : (report notice next).Spends 0 a :=
  ⟨a, Allowance.pays_event hkind _, h⟩

/-- The last event of a run. -/
lemma spends_close {notice : Notice} (hkind : notice.kind.isTerminal = true)
    (left callbacks : Nat) : (report notice finished).Spends 0 ⟨left, callbacks, 1⟩ :=
  ⟨⟨left, callbacks, 0⟩, Allowance.pays_ending left callbacks 0 hkind _, trivial⟩

lemma spends_pauseUntil (h : next.Spends 0 a) (deadline looks : Nat) :
    (pauseUntil deadline next looks).Spends 0 a := by
  induction looks with
  | zero => exact h
  | succ looks ih =>
    intro disposed
    cases disposed with
    | true => exact h
    | false =>
      intro now
      dsimp only
      split
      · exact h
      · exact ih

lemma spends_pause (h : next.Spends 0 a) (delay : Duration) : (pause delay next).Spends 0 a := by
  intro now
  dsimp only
  split
  · exact spends_pauseUntil h _ _
  · trivial

lemma spends_schedule {retry : Duration → Course} (h : ∀ delay, (retry delay).Spends 0 a)
    (p : Progress) : (schedule plan p retry).Spends 0 a := by
  unfold schedule
  split
  · trivial
  · exact spends_report rfl (h _)

lemma spends_judgeFault {next : Bool → Course} (h : ∀ again, (next again).Spends 0 a)
    (fault : Fault) : (judgeFault plan fault next).Spends 0 a := by
  unfold judgeFault
  split
  · exact h _
  · exact h

lemma spends_settle {retry : Progress → Duration → Course} {finish : Progress → Verdict → Course}
    (hretry : ∀ p delay, (retry p delay).Spends 0 a)
    (hfinish : ∀ p verdict, (finish p verdict).Spends 0 a) (p : Progress) (output : Output) :
    (settle plan p output retry finish).Spends 0 a := by
  cases output with
  | ok result =>
    unfold settle
    dsimp only
    split
    · exact hfinish _ _
    · refine spends_report rfl ?_
      split
      · exact spends_schedule (hretry _) _
      · exact hfinish _ _
  | error fault =>
    refine spends_report rfl (spends_judgeFault (fun again => ?_) fault)
    split
    · exact spends_schedule (hretry _) _
    · exact hfinish _ _

lemma isTerminal_verdictNotice (p : Progress) (verdict : Verdict) :
    (verdictNotice p verdict).kind.isTerminal = true := by
  cases verdict <;> rfl

/-- A delivery tells once that the run is over, and calls back once at most. -/
lemma spends_deliver (left : Nat) (p : Progress) (verdict : Verdict) :
    (deliver p verdict).Spends 0 ⟨left, 1, 1⟩ := by
  intro disposed
  cases disposed with
  | true => exact spends_close rfl left 1
  | false =>
    refine ⟨rfl, fun oldest disposed => ?_, fun reason => spends_report rfl trivial⟩
    cases disposed with
    | true => exact ⟨⟨left, 1, 0⟩, Allowance.pays_ending left 1 0 rfl _, trivial⟩
    | false =>
      exact ⟨⟨left, 1, 0⟩, Allowance.pays_ending left 1 0 (isTerminal_verdictNotice p oldest) _,
        ⟨left, 0, 0⟩, Allowance.pays_callback left 0 0 oldest, trivial⟩

lemma spends_blockingAttempts (plan : Plan) (left : Nat) (p : Progress) :
    (blockingAttempts plan left p).Spends 0 ⟨left, 1, 1⟩ := by
  induction left generalizing p with
  | zero => trivial
  | succ left ih =>
    intro disposed
    cases disposed with
    | true => exact spends_close rfl _ 1
    | false =>
      refine spends_report rfl ⟨⟨left, 1, 1⟩, Allowance.pays_body left 1 1, fun output => ?_⟩
      have hretry (q : Progress) (delay : Duration) := spends_pause (ih q) delay
      exact spends_settle hretry (spends_deliver left) p.begin output

lemma spends_asyncAttempts (plan : Plan) (left : Nat) (p : Progress) :
    (asyncAttempts plan left p).Spends 0 ⟨left, 1, 1⟩ := by
  induction left generalizing p with
  | zero => trivial
  | succ left ih =>
    intro disposed
    cases disposed with
    | true => exact spends_close rfl _ 1
    | false =>
      refine spends_report rfl ⟨spends_close rfl _ 1, ⟨left, 1, 1⟩, Allowance.pays_body left 1 1,
        fun output => ?_⟩
      refine spends_settle (fun q delay => ?_) (spends_deliver left) p.begin output
      split
      · exact ih q
      · exact ih q

/-- The course takes hold of the handle, or else does nothing, and keeps to the allowance of its
plan. -/
def IsRun (course : Course) (plan : Plan) : Prop :=
  ∃ next, course = start next ∧ next false = finished ∧ (next true).Spends 0 plan.allowance

theorem isRun_course (plan : Plan) (manner : Manner) : (plan.course manner).IsRun plan := by
  cases manner with
  | blocking => exact ⟨_, rfl, rfl, spends_blockingAttempts plan _ _⟩
  | asynchronous => exact ⟨_, rfl, rfl, spends_asyncAttempts plan _ _⟩

end Course

end Redial
