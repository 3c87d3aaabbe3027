import Redial.Proofs.CourseLogic

/-!
# Watches

A watch stands beside a run and moves with each of its steps. It need not let every step pass, nor
let the run end at any time. Whether a watch admits a course is read off the course alone, answer by
answer; a race of a course that is admitted never takes a step that its watch would not let pass,
wherever the steps of other threads come in between.
-/

namespace Redial

universe u

/-- What a run is watched with: how the watch moves with a step of the run, if it lets the step
pass, and where it lets the run end. -/
structure Watch (σ : Type u) where
  after? : σ → Stride → Option σ
  MayEnd : σ → Prop

/-- The step is neither an event nor one into or out of the body, nor does it ask the predicate. -/
def Stride.isAside : Stride → Bool
  | told _ | bodyBegan | bodyEnded _ | predicateBegan _ | other _ => false
  | _ => true

/-- The event neither judges the output of an attempt nor tells of a retry or a success. -/
def EventKind.isAside : EventKind → Bool
  | resultUnsuccessful | attemptFailed | retryScheduled | callSucceeded => false
  | _ => true

namespace Watch

variable {σ : Type u} {w : Watch σ} {s : σ}

/-- The watch lets the step pass, and then it satisfies `P`. -/
def Passes (w : Watch σ) (s : σ) (stride : Stride) (P : σ → Prop) : Prop :=
  ∃ t, w.after? s stride = some t ∧ P t

/-- The watch moves along some steps, if it lets all of them pass. -/
def along (w : Watch σ) (s : σ) (strides : List Stride) : Option σ := strides.foldlM w.after? s

lemma along_cons (s : σ) (stride : Stride) (strides : List Stride) :
    w.along s (stride :: strides) = (w.after? s stride).bind (w.along · strides) :=
  List.foldlM_cons

lemma along_append (s : σ) (first rest : List Stride) :
    w.along s (first ++ rest) = (w.along s first).bind (w.along · rest) :=
  List.foldlM_append

/-- A step that has passed did so in the state that the watch had come to. -/
lemma exists_of_along {t : σ} {first rest : List Stride} {stride : Stride}
    (h : w.along s (first ++ stride :: rest) = some t) :
    ∃ u v, w.along s first = some u ∧ w.after? u stride = some v ∧ w.along v rest = some t := by
  rw [along_append] at h
  obtain ⟨u, hu, hrest⟩ := Option.bind_eq_some_iff.mp h
  rw [along_cons] at hrest
  obtain ⟨v, hv, ht⟩ := Option.bind_eq_some_iff.mp hrest
  exact ⟨u, v, hu, hv, ht⟩

/-- A watch that has moved has a last step. -/
lemma exists_last_of_along {t : σ} {strides : List Stride} (h : w.along s strides = some t)
    (hne : s ≠ t) : ∃ first stride u, strides = first ++ [stride] ∧ w.along s first = some u ∧
      w.after? u stride = some t := by
  rcases List.eq_nil_or_concat strides with rfl | ⟨first, stride, rfl⟩
  · cases h
    exact absurd rfl hne
  · rw [List.concat_eq_append] at h ⊢
    obtain ⟨u, v, hu, hv, ht⟩ := exists_of_along h
    cases ht
    exact ⟨first, stride, u, rfl, hu, hv⟩

/-- The watch lets every way through the course pass, whatever is answered. -/
def Admits (w : Watch σ) : Course → σ → Prop
  | .finished, s | .panics _, s => w.MayEnd s
  | .start next, s => ∀ won, w.Passes s (.started won) (w.Admits (next won))
  | .askDisposed next, s => ∀ disposed, w.Passes s (.looked disposed) (w.Admits (next disposed))
  | .report notice next, s => w.Passes s (.told notice) (w.Admits next)
  | .invoke next, s =>
    w.Passes s .bodyBegan fun s => ∀ output, w.Passes s (.bodyEnded output) (w.Admits (next output))
  | .dispatch next, s =>
    w.Passes s .bodyRefused (w.Admits (next none)) ∧
      w.Passes s .bodyBegan fun s =>
        ∀ output, w.Passes s (.bodyEnded output) (w.Admits (next (some output)))
  | .consult fault next, s =>
    w.Passes s (.predicateBegan fault) fun s =>
      ∀ again, w.Passes s (.predicateEnded again) (w.Admits (next again))
  | .readClock next, s => ∀ now, w.Passes s (.clockRead now) (w.Admits (next now))
  | .sleep nanos next, s => w.Passes s (.slept nanos) (w.Admits next)
  | .await delay next, s => w.Passes s (.waited delay) (w.Admits next)
  | .push verdict next, s => ∀ answer, w.Passes s (.pushed verdict answer) (w.Admits (next answer))
  | .pop next, s => ∀ verdict, w.Passes s (.popped verdict) (w.Admits (next verdict))
  | .callback verdict next, s =>
    (w.Passes s (.callbackBegan verdict) fun s => w.Passes s .callbackEnded (w.Admits next)) ∧
      w.Passes s (.callbackMissing verdict) (w.Admits next)

/-- `Watch.Admits` of what is left of a run. -/
def AdmitsRest (w : Watch σ) : Standing → σ → Prop
  | .before course, s => w.Admits course s
  | .inBody next, s => ∀ output, w.Passes s (.bodyEnded output) (w.Admits (next output))
  | .inPredicate next, s => ∀ again, w.Passes s (.predicateEnded again) (w.Admits (next again))
  | .inCallback next, s => w.Passes s .callbackEnded (w.Admits next)

lemma passes_of_leads {a b : Standing} {stride : Stride} (h : a.Leads stride b)
    (ha : w.AdmitsRest a s) : w.Passes s stride (w.AdmitsRest b) := by
  cases h with
  | start won => exact ha won
  | look disposed => exact ha disposed
  | tell | sleep | wait | enterBody | enterPredicate | leaveCallback => exact ha
  | sendBody => exact ha.2
  | refuseBody => exact ha.1
  | leaveBody output => exact ha output
  | leavePredicate again => exact ha again
  | readClock now => exact ha now
  | push _ answer => exact ha answer
  | pop verdict => exact ha verdict
  | enterCallback => exact ha.1
  | missCallback => exact ha.2

/-- A race stays on ways that the watch lets pass. -/
theorem along_of_follow {r t : Race} {strides : List Stride} (h : r.follow strides = some t)
    (hr : w.AdmitsRest r.standing s) :
    ∃ s', w.along s (strides.filter Stride.isOwn) = some s' ∧ w.AdmitsRest t.standing s' := by
  induction strides generalizing r s with
  | nil =>
    cases h
    exact ⟨s, rfl, hr⟩
  | cons stride strides ih =>
    obtain ⟨q, hstep, hrest⟩ := Race.follow_cons_eq_some h
    rcases Race.step_cases hstep with ⟨thread, shared, rfl, hshared, rfl⟩ | ⟨hlead, hmeet⟩
    · exact ih hrest hr
    · obtain ⟨u, hu, hq⟩ := passes_of_leads hlead hr
      obtain ⟨v, hv, ht⟩ := ih hrest hq
      refine ⟨v, ?_, ht⟩
      rw [List.filter_cons_of_pos (Stride.isOwn_of_leads hlead), along_cons, hu]
      exact hv

/-- The watch pays no attention to what a run does around its attempts. -/
structure Rests (w : Watch σ) (s : σ) : Prop where
  ends : w.MayEnd s
  aside : ∀ stride, stride.isAside = true → w.after? s stride = some s
  tells : ∀ notice, notice.kind.isAside = true → w.after? s (.told notice) = some s

/-- The watch lets a run tell of its success where it stands at `p`. -/
def TellsSuccess (w : Watch σ) (p : Progress) (s : σ) : Prop :=
  ∀ result, w.after? s (.told (Course.verdictNotice p (.success result))) = some s

namespace Rests

variable {p : Progress}

lemma passes (h : w.Rests s) {P : σ → Prop} (hP : P s) (stride : Stride)
    (haside : stride.isAside = true) : w.Passes s stride P :=
  ⟨s, h.aside stride haside, hP⟩

lemma report (h : w.Rests s) {next : Course} (hnext : w.Admits next s) {notice : Notice}
    (haside : notice.kind.isAside = true) : w.Admits (.report notice next) s :=
  ⟨s, h.tells notice haside, hnext⟩

lemma report_finished (h : w.Rests s) {notice : Notice} (haside : notice.kind.isAside = true) :
    w.Admits (.report notice .finished) s :=
  ⟨s, h.tells notice haside, h.ends⟩

lemma pauseUntil (h : w.Rests s) {next : Course} (hnext : w.Admits next s) (deadline looks : Nat) :
    w.Admits (Course.pauseUntil deadline next looks) s := by
  induction looks with
  | zero => exact hnext
  | succ looks ih =>
    intro disposed
    refine h.passes ?_ _ rfl
    cases disposed with
    | true => exact hnext
    | false =>
      intro now
      refine h.passes ?_ _ rfl
      dsimp only
      split
      · exact hnext
      · exact h.passes ih _ rfl

lemma pause (h : w.Rests s) {next : Course} (hnext : w.Admits next s) (delay : Duration) :
    w.Admits (Course.pause delay next) s := by
  intro now
  refine h.passes ?_ _ rfl
  dsimp only
  split
  · exact h.pauseUntil hnext _ _
  · exact h.ends

lemma drain (h : w.Rests s) (hsuccess : w.TellsSuccess p s) (held : Nat) :
    w.Admits (Course.drain p held) s := by
  induction held with
  | zero => exact h.ends
  | succ held ih =>
    intro verdict
    refine h.passes ?_ _ rfl
    cases verdict with
    | none => exact h.ends
    | some verdict =>
      intro disposed
      refine h.passes ?_ _ rfl
      cases disposed with
      | true => exact h.report ih rfl
      | false =>
        have hcallback : w.Admits (.callback verdict (Course.drain p held)) s :=
          ⟨h.passes (h.passes ih _ rfl) _ rfl, h.passes ih _ rfl⟩
        cases verdict with
        | success result => exact ⟨s, hsuccess result, hcallback⟩
        | failure fault => exact h.report hcallback rfl

lemma deliver (h : w.Rests s) (hsuccess : w.TellsSuccess p s) (verdict : Verdict) :
    w.Admits (Course.deliver p verdict) s := by
  intro disposed
  refine h.passes ?_ _ rfl
  cases disposed with
  | true => exact h.report_finished rfl
  | false =>
    intro answer
    refine h.passes ?_ _ rfl
    cases answer with
    | error reason => exact h.report_finished rfl
    | ok held => exact h.drain hsuccess held

end Rests

/-- What is to be shown of a watch so that it admits the runs of a plan: `I` holds between the
attempts, there the watch rests, and an attempt keeps it. -/
structure Suits (w : Watch σ) (plan : Plan) (I : Progress → σ → Prop) : Prop where
  rests : ∀ {p s}, I p s → w.Rests s
  success : ∀ {p s}, I p s → w.TellsSuccess p s
  attempt : ∀ {p s retry finish}, I p s → (∀ q s delay, I q s → w.Admits (retry q delay) s) →
    (∀ q s verdict, I q s → w.Admits (finish q verdict) s) →
    w.Passes s .bodyBegan fun s => ∀ output, w.Passes s (.bodyEnded output)
      (w.Admits (Course.settle plan p.begin output retry finish))

namespace Suits

variable {plan : Plan} {I : Progress → σ → Prop} {p : Progress}

lemma deliver (h : w.Suits plan I) (hp : I p s) (verdict : Verdict) :
    w.Admits (Course.deliver p verdict) s :=
  (h.rests hp).deliver (h.success hp) verdict

lemma blockingAttempts (h : w.Suits plan I) (left : Nat) (hp : I p s) :
    w.Admits (Course.blockingAttempts plan left p) s := by
  induction left generalizing p s with
  | zero => exact (h.rests hp).ends
  | succ left ih =>
    have hrests := h.rests hp
    intro disposed
    refine hrests.passes ?_ _ rfl
    cases disposed with
    | true => exact hrests.report_finished rfl
    | false =>
      refine hrests.report ?_ rfl
      exact h.attempt hp (fun q s delay hq => (h.rests hq).pause (ih hq) delay)
        fun q s verdict hq => h.deliver hq verdict

lemma asyncAttempts (h : w.Suits plan I) (left : Nat) (hp : I p s) :
    w.Admits (Course.asyncAttempts plan left p) s := by
  induction left generalizing p s with
  | zero => exact (h.rests hp).ends
  | succ left ih =>
    have hrests := h.rests hp
    intro disposed
    refine hrests.passes ?_ _ rfl
    cases disposed with
    | true => exact hrests.report_finished rfl
    | false =>
      refine hrests.report ?_ rfl
      refine ⟨hrests.passes (hrests.report_finished rfl) _ rfl, ?_⟩
      refine h.attempt hp (fun q s delay hq => ?_) fun q s verdict hq => h.deliver hq verdict
      split
      · exact ih hq
      · exact (h.rests hq).passes (ih hq) _ rfl

lemma course (h : w.Suits plan I) (hstart : I (.start plan.limit) s) (manner : Manner) :
    w.Admits (plan.course manner) s := by
  have hrests := h.rests hstart
  cases manner with
  | blocking =>
    intro won
    refine hrests.passes ?_ _ rfl
    cases won with
    | true => exact h.blockingAttempts _ hstart
    | false => exact hrests.ends
  | asynchronous =>
    intro won
    refine hrests.passes ?_ _ rfl
    cases won with
    | true => exact h.asyncAttempts _ hstart
    | false => exact hrests.ends

/-- The watch moves along every race of the plan, from its first step on. -/
theorem along_of_begin (h : w.Suits plan I) (hstart : I (.start plan.limit) s) {manner : Manner}
    {shared : SharedHandle} {strides : List Stride} {t : Race}
    (hfollow : (Race.begin plan manner shared).follow strides = some t) :
    ∃ s', w.along s (strides.filter Stride.isOwn) = some s' ∧ w.AdmitsRest t.standing s' :=
  along_of_follow hfollow (h.course hstart manner)

end Suits

end Watch

end Redial
