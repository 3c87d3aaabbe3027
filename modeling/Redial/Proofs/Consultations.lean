import Redial.Proofs.Settlements

/-!
# Consultations

A predicate judges the faults of a run. A fault that the body returns is told, and the predicate is
asked about it next, before the run does anything else: the last permitted attempt and a handle that
was disposed in the meantime make no difference. About results the predicate is not asked.
-/

namespace Redial

/-- The faults that the body returned. -/
def faultsReturned (strides : List Stride) : List Fault :=
  strides.filterMap fun
    | .bodyEnded (.error fault) => some fault
    | _ => none

/-- The faults that the predicate was asked about. -/
def faultsAsked (strides : List Stride) : List Fault :=
  strides.filterMap fun
    | .predicateBegan fault => some fault
    | _ => none

/-- The number of bodies that began. -/
def bodiesBegun (strides : List Stride) : Nat :=
  strides.countP fun
    | .bodyBegan => true
    | _ => false

/-- The event about the fault of an attempt. -/
def Notice.failure (attempt : Nat) (fault : Fault) : Notice :=
  { kind := .attemptFailed, attempt := some attempt, error := some fault.text }

/-- How far a run is with asking about its last fault, and the attempts it has begun. -/
inductive Consultation where
  | idle (attempts : Nat)
  | returned (attempts : Nat) (fault : Fault)
  | told (attempts : Nat) (fault : Fault)

namespace Consultation

def attempts : Consultation → Nat
  | idle n | returned n _ | told n _ => n

/-- The fault that the predicate is still to be asked about. -/
def pending : Consultation → List Fault
  | idle _ => []
  | returned _ fault | told _ fault => [fault]

/-- A fault must be told at once, and then the predicate must be asked about it. -/
def after? : Consultation → Stride → Option Consultation
  | idle n, .bodyBegan => some (idle (n + 1))
  | idle n, .bodyEnded (.error fault) => some (returned n fault)
  | idle _, .predicateBegan _ => none
  | idle n, _ => some (idle n)
  | returned n fault, .told notice =>
    if notice = .failure n fault then some (told n fault) else none
  | told n fault, .predicateBegan asked => if asked = fault then some (idle n) else none
  | _, _ => none

/-- The watch over the questions to the predicate. No run ends before the last one. -/
def watch : Watch Consultation where
  after? := after?
  MayEnd s := s.pending = []

variable {s t : Consultation} {stride : Stride} {strides : List Stride}

/-- The predicate is asked about a fault only if it is the one that was told just before. -/
lemma of_predicateBegan {fault : Fault} (h : s.after? (.predicateBegan fault) = some t) :
    ∃ n, s = told n fault ∧ t = idle n := by
  cases s with
  | idle | returned => cases h
  | told n pending =>
    obtain ⟨rfl, ht⟩ := Option.ite_none_right_eq_some.mp h
    exact ⟨n, rfl, (Option.some.inj ht).symm⟩

/-- No body ends with a fault while there is one to be asked about. -/
lemma of_bodyEnded {fault : Fault} (h : s.after? (.bodyEnded (.error fault)) = some t) :
    ∃ n, s = idle n ∧ t = returned n fault := by
  cases s with
  | idle n =>
    cases h
    exact ⟨n, rfl, rfl⟩
  | returned | told => cases h

lemma after?_idle_cases {n : Nat} (h : (idle n).after? stride = some t) :
    (stride = .bodyBegan ∧ t = idle (n + 1)) ∨
    (∃ fault, stride = .bodyEnded (.error fault) ∧ t = returned n fault) ∨
    (bodiesBegun [stride] = 0 ∧ faultsReturned [stride] = [] ∧ faultsAsked [stride] = [] ∧
      t = idle n) := by
  cases stride with
  | bodyBegan =>
    cases h
    exact Or.inl ⟨rfl, rfl⟩
  | bodyEnded output =>
    cases output with
    | error fault =>
      cases h
      exact Or.inr (Or.inl ⟨fault, rfl, rfl⟩)
    | ok result =>
      cases h
      exact Or.inr (Or.inr ⟨rfl, rfl, rfl, rfl⟩)
  | predicateBegan => cases h
  | _ =>
    cases h
    exact Or.inr (Or.inr ⟨rfl, rfl, rfl, rfl⟩)

lemma after?_returned {n : Nat} {fault : Fault} (h : (returned n fault).after? stride = some t) :
    stride = .told (.failure n fault) ∧ t = told n fault := by
  cases stride with
  | told notice =>
    obtain ⟨rfl, ht⟩ := Option.ite_none_right_eq_some.mp h
    exact ⟨rfl, (Option.some.inj ht).symm⟩
  | _ => cases h

lemma after?_told {n : Nat} {fault : Fault} (h : (told n fault).after? stride = some t) :
    stride = .predicateBegan fault ∧ t = idle n := by
  cases stride with
  | predicateBegan asked =>
    obtain ⟨rfl, ht⟩ := Option.ite_none_right_eq_some.mp h
    exact ⟨rfl, (Option.some.inj ht).symm⟩
  | _ => cases h

lemma of_after?_told {n : Nat} {fault : Fault} (h : s.after? stride = some (told n fault)) :
    s = returned n fault ∧ stride = .told (.failure n fault) := by
  cases s with
  | idle m => rcases after?_idle_cases h with ⟨-, ht⟩ | ⟨_, -, ht⟩ | ⟨-, -, -, ht⟩ <;> cases ht
  | returned m pending =>
    obtain ⟨hstride, ht⟩ := after?_returned h
    cases ht
    exact ⟨rfl, hstride⟩
  | told m pending => cases (after?_told h).2

lemma of_after?_returned {n : Nat} {fault : Fault}
    (h : s.after? stride = some (returned n fault)) : stride = .bodyEnded (.error fault) := by
  cases s with
  | idle m =>
    rcases after?_idle_cases h with ⟨-, ht⟩ | ⟨_, hstride, ht⟩ | ⟨-, -, -, ht⟩ <;> cases ht
    exact hstride
  | returned m pending => cases (after?_returned h).2
  | told m pending => cases (after?_told h).2

/-- What a step adds to the bodies, to the faults returned and to those asked about. -/
lemma account_of_after? (h : s.after? stride = some t) :
    t.attempts = s.attempts + bodiesBegun [stride] ∧
      s.pending ++ faultsReturned [stride] = faultsAsked [stride] ++ t.pending := by
  cases s with
  | idle n =>
    rcases after?_idle_cases h with ⟨rfl, rfl⟩ | ⟨fault, rfl, rfl⟩ | ⟨hbodies, hreturned, hasked, rfl⟩
    · exact ⟨rfl, rfl⟩
    · exact ⟨rfl, rfl⟩
    · rw [hbodies, hreturned, hasked]
      exact ⟨rfl, rfl⟩
  | returned n fault =>
    obtain ⟨rfl, rfl⟩ := after?_returned h
    exact ⟨rfl, rfl⟩
  | told n fault =>
    obtain ⟨rfl, rfl⟩ := after?_told h
    exact ⟨rfl, rfl⟩

/-- The faults returned are those asked about and at most one more. -/
lemma account_of_along (h : watch.along s strides = some t) :
    t.attempts = s.attempts + bodiesBegun strides ∧
      s.pending ++ faultsReturned strides = faultsAsked strides ++ t.pending := by
  induction strides generalizing s with
  | nil =>
    cases h
    exact ⟨rfl, List.append_nil _⟩
  | cons stride strides ih =>
    rw [Watch.along_cons] at h
    obtain ⟨u, hu, ht⟩ := Option.bind_eq_some_iff.mp h
    obtain ⟨hattempts, hfaults⟩ := account_of_after? hu
    obtain ⟨hattempts', hfaults'⟩ := ih ht
    have hbodies : bodiesBegun (stride :: strides) = bodiesBegun [stride] + bodiesBegun strides :=
      @List.countP_append _ _ [stride] strides
    have hreturned : faultsReturned (stride :: strides) =
        faultsReturned [stride] ++ faultsReturned strides := List.filterMap_append (l := [stride])
    have hasked : faultsAsked (stride :: strides) = faultsAsked [stride] ++ faultsAsked strides :=
      List.filterMap_append (l := [stride])
    constructor
    · rw [hattempts', hattempts, hbodies, Nat.add_assoc]
    · rw [hreturned, hasked, ← List.append_assoc, hfaults, List.append_assoc, hfaults',
        List.append_assoc]

/-- Right before the predicate is asked about a fault, the body has returned it and it was told. -/
lemma eq_append_of_told {m n : Nat} {fault : Fault}
    (h : watch.along (idle m) strides = some (told n fault)) :
    ∃ first, strides = first ++ [.bodyEnded (.error fault), .told (.failure n fault)] := by
  obtain ⟨first, stride, u, rfl, hu, hlast⟩ := Watch.exists_last_of_along h (by simp)
  obtain ⟨rfl, rfl⟩ := of_after?_told hlast
  obtain ⟨first, stride, v, rfl, hv, hlast⟩ := Watch.exists_last_of_along hu (by simp)
  obtain rfl := of_after?_returned hlast
  exact ⟨first, by simp⟩

/-- Behind a fault it is told, and then the predicate is asked about it, unless the run has not come
so far. -/
lemma next_of_returned {n : Nat} {fault : Fault}
    (h : watch.along (returned n fault) strides = some t) :
    strides <+: [.told (.failure n fault), .predicateBegan fault] ∨
      [.told (.failure n fault), .predicateBegan fault] <+: strides := by
  cases strides with
  | nil => exact Or.inl (List.nil_prefix)
  | cons stride strides =>
    obtain ⟨u, hu, ht⟩ := Option.bind_eq_some_iff.mp (Watch.along_cons _ _ _ ▸ h)
    obtain ⟨rfl, rfl⟩ := after?_returned hu
    cases strides with
    | nil => exact Or.inl ⟨[.predicateBegan fault], rfl⟩
    | cons stride strides =>
      obtain ⟨v, hv, -⟩ := Option.bind_eq_some_iff.mp (Watch.along_cons _ _ _ ▸ ht)
      obtain ⟨rfl, rfl⟩ := after?_told hv
      exact Or.inr ⟨strides, rfl⟩

lemma rests_idle (n : Nat) : watch.Rests (idle n) where
  ends := rfl
  aside stride haside := by
    cases stride with
    | bodyBegan | bodyEnded | predicateBegan => cases haside
    | _ => rfl
  tells notice haside := rfl

/-- If there is a predicate, no attempt leaves a fault behind that it was not asked about. -/
lemma admits_settle {plan : Plan} {predicate : Retry.Predicate} {p : Progress}
    {retry : Progress → Duration → Course} {finish : Progress → Verdict → Course}
    (hpredicate : plan.rule.predicate = some predicate) (hp : p.attempt ≠ 0)
    (hretry : ∀ q s delay, s = idle q.attempt → watch.Admits (retry q delay) s)
    (hfinish : ∀ q s verdict, s = idle q.attempt → watch.Admits (finish q verdict) s)
    (output : Output) : watch.Passes (idle p.attempt) (.bodyEnded output)
      (watch.Admits (Course.settle plan p output retry finish)) := by
  have hgoes (accepted : Bool) : watch.Admits ((plan.settlement p accepted output).course
      (p.charge plan output) retry finish) (idle p.attempt) := by
    have hattempt : idle p.attempt = idle (p.charge plan output).attempt := by
      rw [Progress.attempt_charge]
    exact (rests_idle _).settlement (fun _ _ => rfl) (fun delay => hretry _ _ delay hattempt)
      (fun verdict => hfinish _ _ verdict hattempt) _
  rw [Course.settle_eq]
  cases output with
  | ok result =>
    refine ⟨idle p.attempt, rfl, ?_⟩
    unfold Course.announce
    dsimp only
    split
    · exact hgoes true
    · exact ⟨idle p.attempt, rfl, hgoes true⟩
  | error fault =>
    have hnotice : { p.notice .attemptFailed with error := some fault.text } =
        Notice.failure p.attempt fault := by
      unfold Progress.notice Notice.failure
      rw [if_neg hp]
    refine ⟨returned p.attempt fault, rfl, told p.attempt fault, if_pos hnotice, ?_⟩
    unfold Course.judgeFault Retry.Rule.answer
    rw [hpredicate]
    exact ⟨idle p.attempt, if_pos rfl, fun accepted => ⟨idle p.attempt, rfl, hgoes accepted⟩⟩

lemma suits {plan : Plan} {predicate : Retry.Predicate}
    (hpredicate : plan.rule.predicate = some predicate) :
    watch.Suits plan fun p s => s = idle p.attempt where
  rests := by
    rintro p _ rfl
    exact rests_idle _
  success := by
    rintro p _ rfl result
    rfl
  attempt := by
    rintro p _ retry finish rfl hretry hfinish
    have hbegun : p.begin.attempt ≠ 0 := Nat.succ_ne_zero _
    exact ⟨idle p.begin.attempt, rfl, admits_settle hpredicate hbegun hretry hfinish⟩

end Consultation

namespace Race

/-- If there is a predicate, it is asked about each fault that the body returns, once and in order:
the faults it was asked about are those returned, up to one that it is still to be asked about, and
a run at its end has none such. Between the body that returned the fault and the question the run
only tells of the failed attempt, so no event about a retry, no callback and no other body comes
between them, and the predicate is asked about nothing else. -/
theorem predicate_asked_once_per_fault (plan : Plan) (manner : Manner) (shared : SharedHandle)
    (predicate : Retry.Predicate) (hpredicate : plan.rule.predicate = some predicate)
    (strides : List Stride) (t : Race) (h : (begin plan manner shared).follow strides = some t) :
    let run := strides.filter Stride.isOwn
    (faultsReturned run = faultsAsked run ∨
      ∃ fault, faultsReturned run = faultsAsked run ++ [fault]) ∧
    (t.IsOver ∨ (∃ text, t.standing = .before (.panics text)) →
      faultsReturned run = faultsAsked run) ∧
    (∀ front fault rest, run = front ++ .predicateBegan fault :: rest →
      ∃ earlier, front =
        earlier ++ [.bodyEnded (.error fault), .told (.failure (bodiesBegun front) fault)]) ∧
    ∀ front fault rest, run = front ++ .bodyEnded (.error fault) :: rest →
      rest <+: [.told (.failure (bodiesBegun front) fault), .predicateBegan fault] ∨
        [.told (.failure (bodiesBegun front) fault), .predicateBegan fault] <+: rest := by
  intro run
  obtain ⟨s, halong, hrest⟩ := (Consultation.suits hpredicate).along_of_begin rfl h
  obtain ⟨-, hfaults⟩ := Consultation.account_of_along halong
  have hfaults : faultsReturned run = faultsAsked run ++ s.pending := hfaults
  have halong : Consultation.watch.along (.idle 0) run = some s := halong
  refine ⟨?_, ?_, ?_, ?_⟩
  · rw [hfaults]
    cases s with
    | idle n => exact Or.inl (List.append_nil _)
    | returned n fault | told n fault => exact Or.inr ⟨fault, rfl⟩
  · intro hend
    have hnone : s.pending = [] := by
      rcases hend with hover | ⟨text, hpanics⟩
      · rw [IsOver] at hover
        rw [hover] at hrest
        exact hrest
      · rw [hpanics] at hrest
        exact hrest
    rw [hfaults, hnone, List.append_nil]
  · intro front fault rest hrun
    rw [hrun] at halong
    obtain ⟨u, v, hu, hv, -⟩ := Watch.exists_of_along halong
    obtain ⟨n, rfl, -⟩ := Consultation.of_predicateBegan hv
    obtain ⟨hbodies, -⟩ := Consultation.account_of_along hu
    have hn : n = bodiesBegun front := hbodies.trans (Nat.zero_add _)
    rw [← hn]
    exact Consultation.eq_append_of_told hu
  · intro front fault rest hrun
    rw [hrun] at halong
    obtain ⟨u, v, hu, hv, hlater⟩ := Watch.exists_of_along halong
    obtain ⟨n, rfl, rfl⟩ := Consultation.of_bodyEnded hv
    obtain ⟨hbodies, -⟩ := Consultation.account_of_along hu
    have hn : n = bodiesBegun front := hbodies.trans (Nat.zero_add _)
    rw [← hn]
    exact Consultation.next_of_returned hlater

/-- The predicate is asked about the fault of the last permitted attempt, although the handle was
disposed while the body was at work. -/
theorem predicate_asked_after_disposal :
    let plan : Plan := { Plan.canceled with rule := ⟨some fun _ _ => .done true, false⟩ }
    let strides : List Stride :=
      [.started true, .looked false, .told { kind := .attemptStarting, attempt := some 1 },
        .bodyBegan, .other 0, .bodyEnded (.error .canceled), .told (.failure 1 .canceled),
        .predicateBegan .canceled, .predicateEnded true, .looked true,
        .told { kind := .deliverySuppressed, attempt := some 1 }]
    ∃ t, (begin plan .blocking { uses := [.disposing] }).follow strides = some t ∧ t.IsOver ∧
      faultsReturned (strides.filter Stride.isOwn) = [.canceled] ∧
      faultsReturned (strides.filter Stride.isOwn) = faultsAsked (strides.filter Stride.isOwn) := by
  intro plan strides
  have h := predicate_asked_once_per_fault plan .blocking { uses := [.disposing] } _ rfl strides _
    rfl
  exact ⟨_, rfl, rfl, rfl, h.2.1 (Or.inl rfl)⟩

end Race

end Redial
