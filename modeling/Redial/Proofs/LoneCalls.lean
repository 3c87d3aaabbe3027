import Redial.Proofs.Histories

/-!
# A call on its own

A call as it would be if there was nothing else: a machine that is told what the call meets with,
and does what the call does on it. What user code does besides coming to a value, what other calls
there are, where events go and what time it is does not occur in it. The machine has no choice of
its own: with the same stimuli it has the same history.
-/

namespace Redial

/-- The plan without its user code, of which nothing is left but whether there is any, and without
the settings of its outbox and its feed. -/
def Plan.bare (plan : Plan) : Plan where
  name := plan.name
  body _ := .panic ""
  limit := plan.limit
  rule :=
    { predicate := plan.rule.predicate.map fun _ _ _ => .panic ""
      retryUnsuccessful := plan.rule.retryUnsuccessful }
  backoff := plan.backoff
  draws := plan.draws
  onSuccess := none
  onFailure := none
  delivery := .usual .latest
  feed := .none

/-- The call without its user code, and without what only matters to others: on which feed it tells
of events, how big its outbox is, who can reach it and whether somebody holds it. -/
def Call.bare (call : Call) : Call where
  plan := call.plan.bare
  feed := call.feed.map fun _ => 0
  handle := call.handle
  badge := ⟨call.plan.name, call.feed.map fun _ => 0⟩
  badge_eq := rfl
  outbox := { (.create 1 .latest : Delivery.Outbox Verdict) with queue := call.outbox.queue }
  onSuccess := call.onSuccess.map fun _ _ => .done ()
  onFailure := call.onFailure.map fun _ _ => .done ()
  bodyCalls := call.bodyCalls
  predicateCalls := call.predicateCalls

/-- What others see of an event that a call tells of, apart from its number. -/
def Call.tells (call : Call) (notice : Notice) : Reaction :=
  .told { notice with call := some call.plan.name } call.feed.isSome

/-- What is done when the handle may have been disposed, and the call after that. -/
def Call.disturbed (call : Call) (isDisposed : Bool) : List Reaction × Call :=
  if isDisposed then ([.turned .disposed, call.tells { kind := .handleDisposed }], call.disposed)
  else ([], call)

/-- What its callback for the verdict does, if it has one that has not been used. -/
def Call.callback? (call : Call) : Verdict → Option (Script Unit)
  | .success result => call.onSuccess.map fun callback => callback result
  | .failure fault => call.onFailure.map fun callback => callback fault

def Call.useCallback (call : Call) : Verdict → Call
  | .success _ => { call with onSuccess := none }
  | .failure _ => { call with onFailure := none }

lemma Call.isSome_callback?_bare (call : Call) (verdict : Verdict) :
    (call.bare.callback? verdict).isSome = (call.callback? verdict).isSome := by
  unfold callback? bare
  cases verdict with
  | success | failure => simp only [Option.isSome_map]

lemma Call.useCallback_bare (call : Call) (verdict : Verdict) :
    call.bare.useCallback verdict = (call.useCallback verdict).bare := by
  cases verdict <;> rfl

def Exchange.bare? (x : Exchange) (c : CallId) : Option Call := (x.call? c).map Call.bare

/-- Where a call stands. -/
inductive Stage : Type 1 where
  | resting
  | running (course : Course)
  /-- Its user code is at work: how the run goes on with the value, and what is noted of it. -/
  | coding {α : Type} (rest : α → Course) (noted : α → List Reaction)
  /-- Its run is over, and nobody knows yet. -/
  | ended

/-- A call on its own. Its clock shows the time since the last pause began. -/
structure Solo : Type 1 where
  call : Call
  clock : Nat := 0
  stage : Stage := .resting

namespace Solo

open Course

def goTo (u : Solo) (stage : Stage) : Solo := { u with stage }

def toBody (u : Solo) (rest : Output → Course) : List Reaction × Solo :=
  ([.invoked (u.call.bodyCalls + 1)],
    { u with
      call := { u.call with bodyCalls := u.call.bodyCalls + 1 }
      stage := .coding rest fun _ => [] })

def toPredicate (u : Solo) (fault : Fault) (rest : Bool → Course) : List Reaction × Solo :=
  if u.call.plan.rule.predicate.isSome then
    ([.asked (u.call.predicateCalls + 1) fault],
      { u with
        call := { u.call with predicateCalls := u.call.predicateCalls + 1 }
        stage := .coding rest fun answer => [.consulted fault answer] })
  else ([], u.goTo (.running (rest true)))

def toCallback (u : Solo) (verdict : Verdict) (rest : Course) : List Reaction × Solo :=
  if (u.call.callback? verdict).isSome then
    ([.delivered verdict],
      { u with
        call := u.call.useCallback verdict
        stage := .coding (fun _ : Unit => rest) fun _ => [] })
  else ([], u.goTo (.running rest))

/-- The next step of a run where nobody else has a say, and what is done in it. -/
def carry (u : Solo) : Course → List Reaction × Solo
  | .finished => ([.ended (.ok ())], u.goTo .ended)
  | .panics text => ([.ended (.error (.panic text))], u.goTo .ended)
  | .start next =>
    let (won, handle) := u.call.handle.start
    (if won then [.turned .running] else [],
      { u with call := { u.call with handle }, stage := .running (next won) })
  | .askDisposed next => ([], u.goTo (.running (next u.call.handle.isDisposed)))
  | .report notice next => ([u.call.tells notice], u.goTo (.running next))
  | .invoke next => u.toBody next
  | .dispatch next => ([], u.goTo (.running (next none)))
  | .consult fault next => u.toPredicate fault next
  | .readClock next => ([], u.goTo (.running (next u.clock)))
  | .sleep nanos next =>
    ([.slept nanos], { u with clock := u.clock + nanos, stage := .running next })
  | .await delay next => ([.waited delay], u.goTo (.running next))
  | .push verdict next =>
    ([], { u with
      call := { u.call with outbox := u.call.outbox.append verdict }
      stage := .running (next (.ok 1)) })
  | .pop next =>
    match u.call.outbox.pop with
    | none => ([], u.goTo (.running (next none)))
    | some (verdict, outbox) =>
      ([], { u with call := { u.call with outbox }, stage := .running (next (some verdict)) })
  | .callback verdict next => u.toCallback verdict next

lemma carry_pop_nil {u : Solo} (hqueue : u.call.outbox.queue = [])
    (next : Option Verdict → Course) : u.carry (.pop next) = ([], u.goTo (.running (next none))) := by
  unfold carry Delivery.Outbox.pop
  rw [hqueue]

lemma carry_pop_cons {u : Solo} {verdict : Verdict} {rest : List Verdict}
    (hqueue : u.call.outbox.queue = verdict :: rest) (next : Option Verdict → Course) :
    u.carry (.pop next) = ([], { u with
      call := { u.call with outbox := { u.call.outbox with queue := rest } }
      stage := .running (next (some verdict)) }) := by
  unfold carry Delivery.Outbox.pop
  rw [hqueue]

/-- The same where somebody else may dispose the handle first. -/
def disturbed (u : Solo) (isDisposed : Bool) (course : Course) : List Reaction × Solo :=
  let (did, call) := u.call.disturbed isDisposed
  let (more, v) := carry { u with call } course
  (did ++ more, v)

/-- The next step of a run, what it meets with and what is done in it. When a pause begins, the
clock is set to zero, or there is no time left on it. -/
def Follows (u : Solo) (felt : Option Stimulus) (did : List Reaction) (v : Solo) : Course → Prop
  | .dispatch next => ∃ staffed, felt = some (.staffed staffed) ∧
    (did, v) = if staffed then u.toBody fun output => next (some output)
      else u.carry (.dispatch next)
  | .readClock next =>
    if opensPause next then ∃ inTime, felt = some (.timed inTime) ∧
      (did, v) = carry { u with clock := if inTime then 0 else clockLimit } (.readClock next)
    else felt = none ∧ (did, v) = u.carry (.readClock next)
  | .sleep nanos next => ∃ isDisposed, felt = some (.paused isDisposed) ∧
    (did, v) = u.disturbed isDisposed (.sleep nanos next)
  | .await delay next => ∃ isDisposed, felt = some (.paused isDisposed) ∧
    (did, v) = u.disturbed isDisposed (.await delay next)
  | course => felt = none ∧ (did, v) = u.carry course

/-- The handle of the call is disposed, and not for the second time. -/
structure IsStruck (u : Solo) (felt : Option Stimulus) (did : List Reaction) (v : Solo) : Prop where
  live : u.call.handle.isDisposed = false
  felt : felt = some .disposed
  did : did = [.turned .disposed, u.call.tells { kind := .handleDisposed }]
  after : v = { u with call := u.call.disposed }

/-- One step: what the call meets with, if anything, and what it does on it. -/
def Step (u : Solo) (felt : Option Stimulus) (did : List Reaction) (v : Solo) : Prop :=
  match u.stage with
  | .resting =>
    (∃ manner, felt = some (.begun manner) ∧ did = [] ∧
      v = u.goTo (.running (u.call.plan.course manner))) ∨ u.IsStruck felt did v
  | .running course => u.Follows felt did v course
  | .coding rest noted =>
    (∃ value, felt = some (.returned value) ∧ did = noted value ∧
      v = u.goTo (.running (rest value))) ∨
    (∃ text, felt = some (.panicked text) ∧ did = [.ended (.error (.panic text))] ∧
      v = u.goTo .ended) ∨ u.IsStruck felt did v
  | .ended => felt = none ∧ did = [] ∧ v = u.goTo .resting

/-- Nobody runs the call, or its user code is at work: only then others can do something to it. -/
def IsIdle (u : Solo) : Prop :=
  match u.stage with
  | .resting | .coding .. => True
  | .running _ | .ended => False

lemma isIdle_of_resting {u : Solo} (hrests : u.stage = .resting) : u.IsIdle := by
  unfold IsIdle
  rw [hrests]
  trivial

/-- Any number of steps and the history that they make. -/
inductive Path : Solo → History → Solo → Prop
  | nil (u : Solo) : Path u [] u
  | cons {u v w : Solo} {felt : Option Stimulus} {did : List Reaction} {h : History}
    (hstep : u.Step felt did v) (hrest : Path v h w) : Path u (.beat felt did ++ h) w

variable {u v w v' : Solo} {felt felt' : Option Stimulus} {did did' : List Reaction}
  {h h' : History}

lemma Step.of_begun (hrests : u.stage = .resting) (manner : Manner) :
    u.Step (some (.begun manner)) [] (u.goTo (.running (u.call.plan.course manner))) := by
  unfold Step
  rw [hrests]
  exact Or.inl ⟨manner, rfl, rfl, rfl⟩

lemma Path.single (hstep : u.Step felt did v) : Path u (.beat felt did) v := by
  have hpath := Path.cons hstep (.nil v)
  rw [List.append_nil] at hpath
  exact hpath

lemma Path.append (huv : Path u h v) (hvw : Path v h' w) : Path u (h ++ h') w := by
  induction huv with
  | nil => exact hvw
  | cons hstep _ ih =>
    rw [List.append_assoc]
    exact .cons hstep (ih hvw)

lemma Path.of_struck (hidle : u.IsIdle) (hstruck : u.IsStruck felt did v) :
    Path u (.beat felt did) v := by
  refine .single ?_
  unfold IsIdle at hidle
  unfold Step
  split
  case h_1 => exact Or.inr hstruck
  case h_2 heq =>
    rw [heq] at hidle
    exact hidle.elim
  case h_3 => exact Or.inr (Or.inr hstruck)
  case h_4 heq =>
    rw [heq] at hidle
    exact hidle.elim

/-- Whether a run meets with something at its next step is clear from its course, and on the same
stimulus it does the same. -/
lemma Follows.unique {course : Course} (hstep : u.Follows felt did v course)
    (hstep' : u.Follows felt' did' v' course) :
    felt.isSome = felt'.isSome ∧ (felt = felt' → (did, v) = (did', v')) := by
  cases course with
  | dispatch next =>
    obtain ⟨staffed, rfl, hdone⟩ := hstep
    obtain ⟨staffed', rfl, hdone'⟩ := hstep'
    refine ⟨rfl, fun hsame => ?_⟩
    cases hsame
    rw [hdone, hdone']
  | readClock next =>
    by_cases hopens : opensPause next
    · simp only [Follows, hopens, if_true] at hstep hstep'
      obtain ⟨inTime, rfl, hdone⟩ := hstep
      obtain ⟨inTime', rfl, hdone'⟩ := hstep'
      refine ⟨rfl, fun hsame => ?_⟩
      cases hsame
      rw [hdone, hdone']
    · simp only [Follows, hopens] at hstep hstep'
      obtain ⟨rfl, hdone⟩ := hstep
      obtain ⟨rfl, hdone'⟩ := hstep'
      exact ⟨rfl, fun _ => hdone.trans hdone'.symm⟩
  | sleep | await =>
    obtain ⟨isDisposed, rfl, hdone⟩ := hstep
    obtain ⟨isDisposed', rfl, hdone'⟩ := hstep'
    refine ⟨rfl, fun hsame => ?_⟩
    cases hsame
    rw [hdone, hdone']
  | _ =>
    obtain ⟨rfl, hdone⟩ := hstep
    obtain ⟨rfl, hdone'⟩ := hstep'
    exact ⟨rfl, fun _ => hdone.trans hdone'.symm⟩

/-- The same of any step. -/
lemma Step.unique (hstep : u.Step felt did v) (hstep' : u.Step felt' did' v') :
    felt.isSome = felt'.isSome ∧ (felt = felt' → (did, v) = (did', v')) := by
  obtain ⟨call, clock, stage⟩ := u
  cases stage with
  | resting =>
    rcases hstep with ⟨manner, rfl, rfl, rfl⟩ | ⟨-, rfl, rfl, rfl⟩ <;>
      rcases hstep' with ⟨manner', rfl, rfl, rfl⟩ | ⟨-, rfl, rfl, rfl⟩ <;>
      refine ⟨rfl, fun hsame => ?_⟩ <;> cases hsame <;> rfl
  | running course => exact Follows.unique hstep hstep'
  | coding rest noted =>
    rcases hstep with ⟨value, rfl, rfl, rfl⟩ | ⟨text, rfl, rfl, rfl⟩ | ⟨-, rfl, rfl, rfl⟩ <;>
      rcases hstep' with ⟨value', rfl, rfl, rfl⟩ | ⟨text', rfl, rfl, rfl⟩ | ⟨-, rfl, rfl, rfl⟩ <;>
      refine ⟨rfl, fun hsame => ?_⟩ <;> cases hsame <;> rfl
  | ended =>
    obtain ⟨rfl, rfl, rfl⟩ := hstep
    obtain ⟨rfl, rfl, rfl⟩ := hstep'
    exact ⟨rfl, fun _ => rfl⟩

/-- Where both histories go on with a stimulus, or neither does, it is the same. -/
lemma felt_eq_of_meetsSame (hsome : felt.isSome = felt'.isSome)
    (hmeets : History.MeetsSame (.beat felt did ++ h) (.beat felt' did' ++ h')) : felt = felt' := by
  cases felt with
  | none =>
    cases felt' with
    | none => rfl
    | some stimulus' => cases hsome
  | some stimulus =>
    cases felt' with
    | none => cases hsome
    | some stimulus' => exact hmeets [] _ _ rfl rfl rfl rfl

/-- A call that rests does nothing by itself. -/
lemma Step.exists_of_resting (hstep : u.Step felt did v) (hrests : u.stage = .resting) :
    ∃ stimulus, felt = some stimulus := by
  unfold Step at hstep
  rw [hrests] at hstep
  rcases hstep with ⟨manner, rfl, -⟩ | hstruck
  · exact ⟨_, rfl⟩
  · exact ⟨_, hstruck.felt⟩

/-- From one rest to another, what the call meets with decides about everything. -/
theorem Path.unique (hpath : Path u h v) (hpath' : Path u h' v') (hv : v.stage = .resting)
    (hv' : v'.stage = .resting) (hmeets : h.MeetsSame h') : h = h' ∧ v = v' := by
  induction hpath generalizing h' with
  | nil =>
    cases hpath' with
    | nil => exact ⟨rfl, rfl⟩
    | cons hstep' =>
      obtain ⟨stimulus, rfl⟩ := hstep'.exists_of_resting hv
      cases hmeets [] _ _ rfl rfl rfl rfl
  | cons hstep hrest ih =>
    cases hpath' with
    | nil =>
      obtain ⟨stimulus, rfl⟩ := hstep.exists_of_resting hv'
      cases hmeets [] _ _ rfl rfl rfl rfl
    | cons hstep' hrest' =>
      obtain ⟨hsome, hsame⟩ := hstep.unique hstep'
      have hfelt := felt_eq_of_meetsSame hsome hmeets
      subst hfelt
      obtain ⟨rfl, rfl⟩ := Prod.mk.inj (hsame rfl)
      obtain ⟨rfl, rfl⟩ := ih hrest' hv hmeets.of_append
      exact ⟨rfl, rfl⟩

end Solo

end Redial
