import Redial.Proofs.AttemptCount
import Redial.Proofs.ExchangeSteps
import Redial.Proofs.UserCode

/-!
# Blocking and asynchronous runs

Whether a call is run on the own thread and dropped, or given to an asynchronous run, makes no
difference but in the time that passes: the journal, the calls and the feeds come out the same. This
needs user code that runs no other call, no disposal by other threads, and a clock that has room for
the delays.

The two runs are followed in lockstep. In between, their exchanges agree on all but time, and on the
presence of the call, which is at work here and given away there.
-/

namespace Redial

/-- An asynchronous run waited. -/
def Entry.isWait : Entry → Bool
  | .waited _ _ => true
  | _ => false

namespace Exchange

/-- What is left of an exchange without its clocks and the waits of asynchronous runs. -/
def untimed (x : Exchange) : Exchange :=
  { x with clock := 0, timer := 0, journal := x.journal.filter (!·.isWait) }

/-- Two exchanges agree on all but time and the presence of call `c`, which is `p` in the first one
and gone in the second one. -/
structure Alike (c : CallId) (p : Presence) (x y : Exchange) : Prop where
  away : p ≠ .here
  presence : ∀ call, x.call? c = some call → call.presence = p
  solo : ∀ call, x.call? c = some call → call.IsSolo
  calls : y.calls = (x.setPresence c .gone).calls
  feeds : y.feeds = x.feeds
  nextSeq : y.nextSeq = x.nextSeq
  journal : y.journal.filter (!·.isWait) = x.journal.filter (!·.isWait)
  staffed : x.staffed = true ∧ y.staffed = true
  alarm : x.alarm = none ∧ y.alarm = none

variable {x y : Exchange} {c : CallId} {p : Presence}

namespace Alike

/-- Two answers that are the same, with exchanges that are alike. -/
lemma exists_answer {α : Type} {r s : α × Exchange} (h : r.1 = s.1 ∧ Alike c p r.2 s.2) :
    ∃ answer x y, r = (answer, x) ∧ s = (answer, y) ∧ Alike c p x y :=
  ⟨r.1, r.2, s.2, rfl, Prod.ext h.1.symm rfl, h.2⟩

lemma call?_eq (h : Alike c p x y) (d : CallId) : y.call? d =
    if c = d then (x.call? d).map ({ · with presence := .gone }) else x.call? d := by
  rw [call?_congr h.calls]
  exact call?_modify x c _ d

lemma unknown (h : Alike c p x y) {d : CallId} (hx : x.call? d = none) : y.call? d = none := by
  rw [h.call?_eq, hx]
  split <;> rfl

/-- All calls are the same but for a presence. -/
lemma known (h : Alike c p x y) {d : CallId} {call : Call} (hx : x.call? d = some call) :
    ∃ q, y.call? d = some { call with presence := q } := by
  rw [h.call?_eq, hx]
  by_cases hcd : c = d
  · exact ⟨.gone, if_pos hcd⟩
  · exact ⟨call.presence, if_neg hcd⟩

lemma present?_self (h : Alike c p x y) : x.present? c = none := by
  unfold present?
  split
  case h_1 call hx =>
    rw [h.presence call hx]
    exact if_neg h.away
  case h_2 => rfl

lemma present?_eq (h : Alike c p x y) (d : CallId) : y.present? d = x.present? d := by
  by_cases hcd : c = d
  · subst hcd
    rw [h.present?_self, present?, h.call?_eq, if_pos rfl]
    cases x.call? c <;> rfl
  · unfold present?
    rw [h.call?_eq, if_neg hcd]

/-- What changes the other calls changes them alike. -/
lemma modify_of_ne (h : Alike c p x y) {d : CallId} (hcd : c ≠ d) (f : Call → Call) :
    Alike c p (x.modify d f) (y.modify d f) where
  away := h.away
  presence call hcall := h.presence call (by rwa [call?_modify_of_ne x f hcd.symm] at hcall)
  solo call hcall := h.solo call (by rwa [call?_modify_of_ne x f hcd.symm] at hcall)
  calls := by
    change y.calls.modify d _ = (x.calls.modify d _).modify c _
    rw [h.calls, List.modify_modify_ne _ _ _ hcd.symm]
    rfl
  feeds := h.feeds
  nextSeq := h.nextSeq
  journal := h.journal
  staffed := h.staffed
  alarm := h.alarm

/-- What leaves presences and user code alone changes all calls alike. -/
lemma modify (h : Alike c p x y) (d : CallId) {f : Call → Call}
    (hf : ∀ call q, f { call with presence := q } = { f call with presence := q })
    (hsolo : ∀ call, call.IsSolo → (f call).IsSolo) :
    Alike c p (x.modify d f) (y.modify d f) := by
  by_cases hcd : c = d
  · subst hcd
    refine ⟨h.away, fun call hcall => ?_, fun call hcall => ?_, ?_, h.feeds, h.nextSeq, h.journal,
      h.staffed, h.alarm⟩
    · obtain ⟨former, hformer, rfl⟩ := call?_of_modify_self hcall
      have hsame := congrArg Call.presence (hf former former.presence)
      exact hsame.trans (h.presence former hformer)
    · obtain ⟨former, hformer, rfl⟩ := call?_of_modify_self hcall
      exact hsolo former (h.solo former hformer)
    · change y.calls.modify c _ = (x.calls.modify c _).modify c _
      rw [h.calls]
      change (x.calls.modify c _).modify c _ = _
      rw [List.modify_modify_eq, List.modify_modify_eq]
      congr 1
      funext entry
      cases entry with
      | none => rfl
      | some call => exact congrArg some (hf call .gone)
  · exact h.modify_of_ne hcd f

lemma note (h : Alike c p x y) (entry : Entry) : Alike c p (x.note entry) (y.note entry) where
  away := h.away
  presence := h.presence
  solo := h.solo
  calls := h.calls
  feeds := h.feeds
  nextSeq := h.nextSeq
  journal := by
    unfold Exchange.note
    rw [List.filter_cons, List.filter_cons, h.journal]
  staffed := h.staffed
  alarm := h.alarm

/-- Publishing on a feed goes the same way in both. -/
lemma publish (h : Alike c p x y) (feed : FeedId) (event : Nat → Event) :
    Alike c p
      { x with
        feeds := x.feeds.modify feed (·.send (event x.nextSeq))
        nextSeq := x.nextSeq + 1 }
      { y with
        feeds := y.feeds.modify feed (·.send (event y.nextSeq))
        nextSeq := y.nextSeq + 1 } where
  away := h.away
  presence := h.presence
  solo := h.solo
  calls := h.calls
  feeds := by rw [h.feeds, h.nextSeq]
  nextSeq := by rw [h.nextSeq]
  journal := h.journal
  staffed := h.staffed
  alarm := h.alarm

lemma countRetry (h : Alike c p x y) (feed : FeedId) :
    Alike c p (x.countRetry feed) (y.countRetry feed) := by
  rw [countRetry_of_alarm h.alarm.1, countRetry_of_alarm h.alarm.2]
  exact h

lemma tell (h : Alike c p x y) (d : CallId) (notice : Notice) :
    Alike c p (x.tell d notice) (y.tell d notice) := by
  cases hx : x.call? d with
  | none =>
    rw [tell_of_unknown hx, tell_of_unknown (h.unknown hx)]
    exact h
  | some call =>
    obtain ⟨q, hy⟩ := h.known hx
    simp only [Exchange.tell, Exchange.publish, hx, hy]
    cases call.feed with
    | none => exact h.note _
    | some feed =>
      dsimp only
      rw [h.nextSeq]
      have hnoted := h.note (.told d { notice with call := some call.plan.name } (some (feed, x.nextSeq)))
      have hsent := hnoted.publish feed
        fun seq => { notice with call := some call.plan.name, seq }
      split
      · exact hsent.countRetry feed
      · exact hsent

lemma dispose (h : Alike c p x y) (d : CallId) :
    (x.dispose d).1 = (y.dispose d).1 ∧ Alike c p (x.dispose d).2 (y.dispose d).2 := by
  cases hx : x.call? d with
  | none =>
    rw [dispose_of_unknown hx, dispose_of_unknown (h.unknown hx)]
    exact ⟨rfl, h⟩
  | some call =>
    obtain ⟨q, hy⟩ := h.known hx
    rw [dispose_eq_tell, dispose_eq_tell, hx, hy]
    have hchanged := h.modify d (f := ({ · with handle := call.handle.dispose.2 }))
      (fun _ _ => rfl) (fun _ hsolo => hsolo)
    dsimp only
    split
    · exact ⟨rfl, hchanged.tell d _⟩
    · exact ⟨rfl, hchanged⟩

lemma release (h : Alike c p x y) (d : CallId) : Alike c p (x.release d) (y.release d) :=
  (h.dispose d).2.modify d (fun _ _ => rfl) fun _ hsolo => hsolo

/-- Call `c` itself is out of reach of closing and dropping, in both exchanges. -/
lemma perform (h : Alike c p x y) (deed : Deed) (d : CallId) :
    (x.perform deed d).1 = (y.perform deed d).1 ∧
      Alike c p (x.perform deed d).2 (y.perform deed d).2 := by
  cases deed with
  | dispose => exact h.dispose d
  | close =>
    simp only [Exchange.perform, Exchange.close, h.present?_eq d]
    cases x.present? d with
    | none => exact ⟨rfl, h⟩
    | some call => exact h.dispose d
  | drop =>
    simp only [Exchange.perform, Exchange.drop, h.present?_eq d]
    cases hd : x.present? d with
    | none => exact ⟨rfl, h⟩
    | some call =>
      have hcd : c ≠ d := by
        rintro rfl
        rw [h.present?_self] at hd
        cases hd
      exact ⟨rfl, (h.modify_of_ne hcd _).release d⟩

lemma reaches_eq (h : Alike c p x y) (d : CallId) : y.reaches d = x.reaches d := by
  unfold reaches
  cases hx : x.call? d with
  | none => rw [h.unknown hx]
  | some call =>
    obtain ⟨q, hy⟩ := h.known hx
    rw [hy]
    rfl

lemma performFor (h : Alike c p x y) (deed : Deed) (d : CallId) :
    (x.performFor deed d).1 = (y.performFor deed d).1 ∧
      Alike c p (x.performFor deed d).2 (y.performFor deed d).2 := by
  unfold Exchange.performFor
  rw [h.reaches_eq d]
  split
  · exact h.perform deed d
  · exact ⟨rfl, h⟩

variable (nesting nesting' : Nesting)

/-- User code that runs no other call does the same in both. -/
lemma play {α : Type} (h : Alike c p x y) (role : Role) (d : CallId) {script : Script α}
    (hsolo : script.IsSolo) :
    (x.play nesting role d script).1 = (y.play nesting' role d script).1 ∧
      Alike c p (x.play nesting role d script).2 (y.play nesting' role d script).2 := by
  induction script generalizing x y with
  | done value => exact ⟨rfl, h⟩
  | panic text => exact ⟨rfl, h⟩
  | act deed target next ih =>
    obtain ⟨hanswer, hafter⟩ := h.performFor deed target
    simp only [Exchange.play]
    rw [← hanswer]
    exact ih _ (hafter.note _) (hsolo _)
  | run target next ih => exact hsolo.elim

lemma isDisposed_eq (h : Alike c p x y) (d : CallId) :
    (y.call? d).any (·.handle.isDisposed) = (x.call? d).any (·.handle.isDisposed) := by
  cases hx : x.call? d with
  | none => rw [h.unknown hx]
  | some call =>
    obtain ⟨q, hy⟩ := h.known hx
    rw [hy]
    rfl

lemma start (h : Alike c p x y) (d : CallId) :
    (x.start d).1 = (y.start d).1 ∧ Alike c p (x.start d).2 (y.start d).2 := by
  unfold Exchange.start
  cases hx : x.call? d with
  | none =>
    rw [h.unknown hx]
    exact ⟨rfl, h⟩
  | some call =>
    obtain ⟨q, hy⟩ := h.known hx
    rw [hy]
    exact ⟨rfl, h.modify d (fun _ _ => rfl) fun _ hsolo => hsolo⟩

lemma pushVerdict (h : Alike c p x y) (d : CallId) (verdict : Verdict) :
    (x.pushVerdict d verdict).1 = (y.pushVerdict d verdict).1 ∧
      Alike c p (x.pushVerdict d verdict).2 (y.pushVerdict d verdict).2 := by
  unfold Exchange.pushVerdict
  cases hx : x.call? d with
  | none =>
    rw [h.unknown hx]
    exact ⟨rfl, h⟩
  | some call =>
    obtain ⟨q, hy⟩ := h.known hx
    rw [hy]
    dsimp only
    split
    · exact ⟨rfl, h.modify d (fun _ _ => rfl) fun _ hsolo => hsolo⟩
    · exact ⟨rfl, h⟩
    · exact ⟨rfl, h⟩

lemma popVerdict (h : Alike c p x y) (d : CallId) :
    (x.popVerdict d).1 = (y.popVerdict d).1 ∧ Alike c p (x.popVerdict d).2 (y.popVerdict d).2 := by
  have hpop : (y.call? d).bind (·.outbox.pop) = (x.call? d).bind (·.outbox.pop) := by
    cases hx : x.call? d with
    | none => rw [h.unknown hx]
    | some call =>
      obtain ⟨q, hy⟩ := h.known hx
      rw [hy]
      rfl
  unfold Exchange.popVerdict
  rw [hpop]
  split
  · exact ⟨rfl, h⟩
  · exact ⟨rfl, h.modify d (fun _ _ => rfl) fun _ hsolo => hsolo⟩

lemma invokeBody (h : Alike c p x y) :
    (x.invokeBody nesting c).1 = (y.invokeBody nesting' c).1 ∧
      Alike c p (x.invokeBody nesting c).2 (y.invokeBody nesting' c).2 := by
  unfold Exchange.invokeBody Exchange.enter
  cases hx : x.call? c with
  | none =>
    rw [h.unknown hx]
    exact ⟨rfl, h⟩
  | some call =>
    obtain ⟨q, hy⟩ := h.known hx
    rw [hy]
    have hcounted := h.modify c (f := ({ · with bodyCalls := call.bodyCalls + 1 }))
      (fun _ _ => rfl) fun _ hsolo => hsolo
    exact (hcounted.note _).play nesting nesting' .body c ((h.solo call hx).body _)

lemma consultPredicate (h : Alike c p x y) (fault : Fault) :
    (x.consultPredicate nesting c fault).1 = (y.consultPredicate nesting' c fault).1 ∧
      Alike c p (x.consultPredicate nesting c fault).2 (y.consultPredicate nesting' c fault).2 := by
  unfold Exchange.consultPredicate
  cases hx : x.call? c with
  | none =>
    rw [h.unknown hx]
    exact ⟨rfl, h⟩
  | some call =>
    obtain ⟨q, hy⟩ := h.known hx
    rw [hy]
    dsimp only
    cases hpredicate : call.plan.rule.predicate with
    | none => exact ⟨rfl, h⟩
    | some predicate =>
      have hcounted := h.modify c (f := ({ · with predicateCalls := call.predicateCalls + 1 }))
        (fun _ _ => rfl) fun _ hsolo => hsolo
      have hsolo := (h.solo call hx).predicate predicate hpredicate (call.predicateCalls + 1) fault
      obtain ⟨answer, x', y', hplayed, hplayed', hafter⟩ :=
        exists_answer (hcounted.play nesting nesting' .predicate c hsolo)
      dsimp only
      rw [hplayed, hplayed']
      cases answer with
      | ok again => exact ⟨rfl, hafter.note _⟩
      | error halt => exact ⟨rfl, hafter⟩

lemma callBack (h : Alike c p x y) (verdict : Verdict) :
    (x.callBack nesting c verdict).1 = (y.callBack nesting' c verdict).1 ∧
      Alike c p (x.callBack nesting c verdict).2 (y.callBack nesting' c verdict).2 := by
  unfold Exchange.callBack Exchange.enter
  cases hx : x.call? c with
  | none =>
    rw [h.unknown hx]
    exact ⟨rfl, h⟩
  | some call =>
    obtain ⟨q, hy⟩ := h.known hx
    rw [hy]
    cases verdict with
    | success result =>
      dsimp only
      cases hcallback : call.onSuccess with
      | none => exact ⟨rfl, h⟩
      | some callback =>
        have hused := h.modify c (f := ({ · with onSuccess := none })) (fun _ _ => rfl)
          fun _ hsolo => ⟨hsolo.1, hsolo.2, nofun, hsolo.4⟩
        exact (hused.note _).play nesting nesting' .onSuccess c
          ((h.solo call hx).onSuccess callback hcallback result)
    | failure fault =>
      dsimp only
      cases hcallback : call.onFailure with
      | none => exact ⟨rfl, h⟩
      | some callback =>
        have hused := h.modify c (f := ({ · with onFailure := none })) (fun _ _ => rfl)
          fun _ hsolo => ⟨hsolo.1, hsolo.2, hsolo.3, nofun⟩
        exact (hused.note _).play nesting nesting' .onFailure c
          ((h.solo call hx).onFailure callback hcallback fault)

lemma elapse (h : Alike c p x y) (nanos : Nat) : Alike c p (x.elapse nanos) y := by
  rw [elapse_of_alarm h.alarm.1]
  exact ⟨h.1, h.2, h.3, h.4, h.5, h.6, h.7, h.8, h.9⟩

lemma wait (h : Alike c p x y) (d : CallId) (delay : Duration) :
    Alike c p x ((y.wait c delay).note (.waited d delay)) := by
  obtain ⟨timer, htimer⟩ := wait_of_alarm h.alarm.2 c delay
  rw [htimer]
  exact ⟨h.1, h.2, h.3, h.4, h.5, h.6, h.7, h.8, h.9⟩

end Alike

end Exchange

namespace Course

open Exchange

/-- A blocking and an asynchronous course of call `c` do the same from exchanges that are alike, if
the clock of the blocking one has room for the delays of the plan to the end. -/
def Agree (plan : Plan) (c : CallId) (a b : Course) : Prop :=
  ∀ (nesting nesting' : Nesting) (x y : Exchange), Alike c .busy x y →
    plan.FitsClock (follow nesting c a x).2.clock →
    (follow nesting c a x).1 = (follow nesting' c b y).1 ∧
      Alike c .busy (follow nesting c a x).2 (follow nesting' c b y).2

variable {plan : Plan} {c : CallId} {p : Progress}

namespace Agree

lemma finished : Agree plan c finished finished := fun _ _ _ _ h _ => ⟨rfl, h⟩

lemma panics (text : String) : Agree plan c (panics text) (panics text) :=
  fun _ _ _ _ h _ => ⟨rfl, h⟩

lemma report {a b : Course} (notice : Notice) (hnext : Agree plan c a b) :
    Agree plan c (report notice a) (report notice b) :=
  fun _ _ _ _ h hfits => hnext _ _ _ _ (h.tell c notice) hfits

lemma start {a b : Bool → Course} (hnext : ∀ won, Agree plan c (a won) (b won)) :
    Agree plan c (start a) (start b) := by
  intro nesting nesting' x y h hfits
  obtain ⟨won, x', y', hx, hy, hafter⟩ := Alike.exists_answer (h.start c)
  rw [follow, hx] at hfits
  rw [follow, hx, follow, hy]
  exact hnext won _ _ _ _ hafter hfits

lemma askDisposed {a b : Bool → Course} (hnext : ∀ disposed, Agree plan c (a disposed) (b disposed)) :
    Agree plan c (askDisposed a) (askDisposed b) := by
  intro nesting nesting' x y h hfits
  rw [follow] at hfits
  rw [follow, follow, h.isDisposed_eq c]
  exact hnext _ _ _ _ _ h hfits

/-- A body invoked here and a body invoked elsewhere. -/
lemma invoke {a : Output → Course} {b : Option Output → Course}
    (hnext : ∀ output, Agree plan c (a output) (b (some output))) :
    Agree plan c (invoke a) (dispatch b) := by
  intro nesting nesting' x y h hfits
  obtain ⟨output, x', y', hx, hy, hafter⟩ := Alike.exists_answer (h.invokeBody nesting nesting')
  rw [follow, hx] at hfits
  rw [follow, hx, follow, if_pos h.staffed.2, hy]
  cases output with
  | ok output => exact hnext output _ _ _ _ hafter hfits
  | error halt => exact ⟨rfl, hafter⟩

lemma consult {a b : Bool → Course} (fault : Fault) (hnext : ∀ again, Agree plan c (a again) (b again)) :
    Agree plan c (consult fault a) (consult fault b) := by
  intro nesting nesting' x y h hfits
  obtain ⟨answer, x', y', hx, hy, hafter⟩ :=
    Alike.exists_answer (h.consultPredicate nesting nesting' fault)
  rw [follow, hx] at hfits
  rw [follow, hx, follow, hy]
  cases answer with
  | ok again => exact hnext again _ _ _ _ hafter hfits
  | error halt => exact ⟨rfl, hafter⟩

lemma push {a b : Except Delivery.Refusal Nat → Course} (verdict : Verdict)
    (hnext : ∀ answer, Agree plan c (a answer) (b answer)) :
    Agree plan c (push verdict a) (push verdict b) := by
  intro nesting nesting' x y h hfits
  obtain ⟨answer, x', y', hx, hy, hafter⟩ := Alike.exists_answer (h.pushVerdict c verdict)
  rw [follow, hx] at hfits
  rw [follow, hx, follow, hy]
  cases answer with
  | ok held => exact hnext held _ _ _ _ hafter hfits
  | error halt => exact ⟨rfl, hafter⟩

lemma pop {a b : Option Verdict → Course} (hnext : ∀ verdict, Agree plan c (a verdict) (b verdict)) :
    Agree plan c (pop a) (pop b) := by
  intro nesting nesting' x y h hfits
  obtain ⟨verdict, x', y', hx, hy, hafter⟩ := Alike.exists_answer (h.popVerdict c)
  rw [follow, hx] at hfits
  rw [follow, hx, follow, hy]
  exact hnext verdict _ _ _ _ hafter hfits

lemma callback {a b : Course} (verdict : Verdict) (hnext : Agree plan c a b) :
    Agree plan c (callback verdict a) (callback verdict b) := by
  intro nesting nesting' x y h hfits
  obtain ⟨ended, x', y', hx, hy, hafter⟩ :=
    Alike.exists_answer (h.callBack nesting nesting' verdict)
  rw [follow, hx] at hfits
  rw [follow, hx, follow, hy]
  cases ended with
  | ok _ => exact hnext _ _ _ _ hafter hfits
  | error halt => exact ⟨rfl, hafter⟩

/-- A pause here and a wait there, or no wait if there is nothing to wait for. -/
lemma pause {a b : Course} {retry : Nat} {delay : Duration} (hretry : retry < plan.limit.retries)
    (hdelay : plan.backoff.delay retry (plan.draws retry) = .ok delay) (hnext : Agree plan c a b) :
    Agree plan c (pause delay a) (if delay = .zero then b else await delay b) := by
  intro nesting nesting' x y h hfits
  obtain ⟨x', h', hpaused⟩ := follow_pause (I := (Alike c .busy · y)) (fun _ nanos h => h.elapse nanos)
    h delay (hfits retry hretry delay hdelay)
  rw [hpaused] at hfits ⊢
  by_cases hzero : delay = .zero
  · rw [if_pos hzero]
    exact hnext _ _ _ _ h' hfits
  · rw [if_neg hzero, follow]
    exact hnext _ _ _ _ (h'.wait c delay) hfits

end Agree

lemma agree_schedule {a b : Duration → Course}
    (hretry : ∀ delay, plan.backoff.delay p.retryIndex (plan.draws p.retryIndex) = .ok delay →
      Agree plan c (a delay) (b delay)) : Agree plan c (schedule plan p a) (schedule plan p b) := by
  unfold schedule
  cases hdelay : plan.backoff.delay p.retryIndex (plan.draws p.retryIndex) with
  | error e => exact .panics _
  | ok delay => exact .report _ (hretry delay hdelay)

lemma agree_judgeFault {a b : Bool → Course} (hnext : ∀ again, Agree plan c (a again) (b again))
    (fault : Fault) : Agree plan c (judgeFault plan fault a) (judgeFault plan fault b) := by
  unfold judgeFault
  split
  · exact hnext _
  · exact .consult _ hnext

lemma agree_settle {a b : Progress → Duration → Course} {finish : Progress → Verdict → Course}
    (hp : p.attempt ≠ 0)
    (hretry : ∀ q delay, q.retryIndex < plan.limit.retries →
      plan.backoff.delay q.retryIndex (plan.draws q.retryIndex) = .ok delay →
      Agree plan c (a q delay) (b q delay))
    (hfinish : ∀ q verdict, Agree plan c (finish q verdict) (finish q verdict)) (output : Output) :
    Agree plan c (settle plan p output a finish) (settle plan p output b finish) := by
  cases output with
  | ok result =>
    unfold settle
    dsimp only
    split
    · exact hfinish p _
    · have hspent : (p.spend plan.rule.retryUnsuccessful).2.attempt ≠ 0 := by
        rwa [p.attempt_spend]
      generalize p.spend plan.rule.retryUnsuccessful = spent at hspent ⊢
      obtain ⟨signalled, q⟩ := spent
      refine .report _ ?_
      split
      · rename_i hagain
        have hmay : q.mayRetry plan.limit = true := (Bool.and_eq_true_iff.mp hagain).2
        have hindex := Progress.retryIndex_lt hspent hmay
        exact agree_schedule fun delay hdelay => hretry q delay hindex hdelay
      · exact hfinish q _
  | error fault =>
    refine .report _ (agree_judgeFault (fun again => ?_) fault)
    split
    · rename_i hagain
      have hmay : p.mayRetry plan.limit = true := (Bool.and_eq_true_iff.mp hagain).2
      have hindex := Progress.retryIndex_lt hp hmay
      exact agree_schedule fun delay hdelay => hretry p delay hindex hdelay
    · exact hfinish p _

lemma agree_drain (p : Progress) (held : Nat) : Agree plan c (drain p held) (drain p held) := by
  induction held with
  | zero => exact .finished
  | succ held ih =>
    refine .pop fun verdict => ?_
    cases verdict with
    | none => exact .finished
    | some verdict =>
      refine .askDisposed fun disposed => ?_
      cases disposed with
      | true => exact .report _ ih
      | false => exact .report _ (.callback _ ih)

lemma agree_deliver (p : Progress) (verdict : Verdict) :
    Agree plan c (deliver p verdict) (deliver p verdict) := by
  refine .askDisposed fun disposed => ?_
  cases disposed with
  | true => exact .report _ .finished
  | false =>
    refine .push _ fun answer => ?_
    cases answer with
    | error reason => exact .report _ .finished
    | ok held => exact agree_drain p held

theorem agree_attempts (plan : Plan) (c : CallId) (left : Nat) (p : Progress) :
    Agree plan c (blockingAttempts plan left p) (asyncAttempts plan left p) := by
  -- A pause has more steps than a wait, so the attempts are compared one by one, not the steps.
  induction left generalizing p with
  | zero => exact .finished
  | succ left ih =>
    refine .askDisposed fun disposed => ?_
    cases disposed with
    | true => exact .report _ .finished
    | false =>
      refine .report _ (.invoke fun output => ?_)
      refine agree_settle (Nat.succ_ne_zero _) (fun q delay hindex hdelay => ?_) agree_deliver output
      exact .pause hindex hdelay (ih q)

/-- The two ways to run a call agree step by step. -/
theorem agree_courses (plan : Plan) (c : CallId) : Agree plan c (blocking plan) (async plan) := by
  refine .start fun won => ?_
  cases won with
  | false => exact .finished
  | true => exact agree_attempts plan c _ _

end Course

namespace Exchange

variable {x y : Exchange} {c : CallId} {p : Presence}

lemma Alike.setPresence (h : Alike c p x y) {q : Presence} (hq : q ≠ .here) :
    Alike c q (x.setPresence c q) y where
  away := hq
  presence call hcall := by
    obtain ⟨former, -, rfl⟩ := call?_of_modify_self hcall
    rfl
  solo call hcall := by
    obtain ⟨former, hformer, rfl⟩ := call?_of_modify_self hcall
    exact h.solo former hformer
  calls := by
    rw [h.calls]
    change x.calls.modify c _ = (x.calls.modify c _).modify c _
    rw [List.modify_modify_eq]
    congr 1
    funext entry
    cases entry <;> rfl
  feeds := h.feeds
  nextSeq := h.nextSeq
  journal := h.journal
  staffed := h.staffed
  alarm := h.alarm

lemma Alike.untimed_eq (h : Alike c .gone x y) : x.untimed = y.untimed := by
  have hcalls : y.calls = x.calls := by
    rw [h.calls, Exchange.setPresence, modify_of_fixed]
    intro call hcall
    rw [← h.presence call hcall]
  unfold untimed
  rw [hcalls, h.feeds, h.nextSeq, h.journal, h.staffed.1, h.staffed.2, h.alarm.1, h.alarm.2]

/-- Dropping a call that is back from its run. -/
lemma drop_setPresence (x : Exchange) (c : CallId) :
    ((x.setPresence c .here).drop c).2 = (x.setPresence c .gone).release c := by
  cases hx : x.call? c with
  | none =>
    have hsame (f : Call → Call) : x.modify c f = x := modify_of_fixed (by simp [hx])
    have hrelease : x.release c = x := by
      unfold release
      rw [dispose_of_unknown hx]
      exact hsame _
    have hdrop : (x.drop c).2 = x := by
      unfold drop present?
      rw [hx]
    rw [setPresence, hsame, setPresence, hsame, hdrop, hrelease]
  | some call =>
    have hpresent : (x.setPresence c .here).present? c = some { call with presence := .here } := by
      unfold present? setPresence
      rw [call?_modify_self, hx]
      rfl
    have htwice : (x.setPresence c .here).modify c ({ · with presence := .gone }) =
        x.setPresence c .gone := by
      change { x with calls := (x.calls.modify c _).modify c _ } = { x with calls := x.calls.modify c _ }
      rw [List.modify_modify_eq]
      congr 2
      funext entry
      cases entry <;> rfl
    unfold drop
    rw [hpresent]
    dsimp only
    rw [htwice]

/-- How the two runs begin. -/
lemma alike_setPresence (hstaffed : x.staffed = true) (halarm : x.alarm = none)
    (hsolo : ∀ call, x.call? c = some call → call.IsSolo) :
    Alike c .busy (x.setPresence c .busy) (x.setPresence c .gone) where
  away := nofun
  presence call hcall := by
    obtain ⟨former, -, rfl⟩ := call?_of_modify_self hcall
    rfl
  solo call hcall := by
    obtain ⟨former, hformer, rfl⟩ := call?_of_modify_self hcall
    exact hsolo former hformer
  calls := by
    change x.calls.modify c _ = (x.calls.modify c _).modify c _
    rw [List.modify_modify_eq]
    congr 1
    funext entry
    cases entry <;> rfl
  feeds := rfl
  nextSeq := rfl
  journal := rfl
  staffed := ⟨hstaffed, hstaffed⟩
  alarm := ⟨halarm, halarm⟩

/-- A blocking run of a call that is dropped afterwards comes to the same as an asynchronous run,
but for the time it takes. -/
theorem run_then_drop_eq_runAsync (x : Exchange) (c : CallId) (hstaffed : x.staffed = true)
    (halarm : x.alarm = none) (hsolo : ∀ call, x.call? c = some call → call.IsSolo)
    (hfits : ∀ call, x.call? c = some call → call.plan.FitsClock (x.run c).2.clock) :
    (x.run c).1 = (x.runAsync c).1 ∧
      ((x.run c).2.drop c).2.untimed = (x.runAsync c).2.untimed := by
  cases hrunnable : x.runnable c with
  | error reply =>
    have hdrop : (x.drop c).2 = x := by
      unfold drop
      rw [present?_of_runnable hrunnable]
    unfold runAsync
    rw [run_of_error hrunnable, hrunnable]
    exact ⟨rfl, congrArg untimed hdrop⟩
  | ok plan =>
    obtain ⟨call, hcall, -, rfl⟩ := exists_of_runnable hrunnable
    obtain ⟨depth, hrun⟩ := run_of_ok hrunnable
    dsimp only at hrun
    have hroom := hfits call hcall
    rw [hrun] at hroom ⊢
    obtain ⟨hhow, hafter⟩ := Course.agree_courses call.plan c (runWithin depth)
      (runWithin (x.setPresence c .gone).calls.length) _ _ (alike_setPresence hstaffed halarm hsolo) hroom
    unfold runAsync
    rw [hrunnable]
    refine ⟨congrArg RunReply.ended hhow, ?_⟩
    have hgone := (hafter.setPresence (q := .gone) nofun).release c
    rw [drop_setPresence]
    exact hgone.untimed_eq

theorem patient_run_then_drop :
    (patient.run 0).1 = (patient.runAsync 0).1 ∧
      ((patient.run 0).2.drop 0).2.untimed = (patient.runAsync 0).2.untimed := by
  refine run_then_drop_eq_runAsync patient 0 rfl rfl ?_ ?_
  · intro call hcall
    obtain rfl : Plan.toCall .patient none true = call := Option.some.inj hcall
    exact ⟨fun _ => trivial, nofun, nofun, nofun⟩
  · intro call hcall
    obtain rfl : Plan.toCall .patient none true = call := Option.some.inj hcall
    exact fitsClock_patient

end Exchange

end Redial
