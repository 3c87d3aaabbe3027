import Redial.Proofs.Erasures

/-!
# Runs without delivery settings

What a call does when its outbox is full, and how much room it has there, can be forgotten. A step
of a run leads to the same whether it is forgotten before or afterwards, since no run ever finds its
outbox full; and so does a whole run.
-/

namespace Redial

open StateTransition

namespace Delivery

/-- The settings with the usual room for verdicts and the rule that keeps the latest one. -/
def Settings.plain (s : Settings) : Settings := { s with overflow := .latest, outboxCapacity := 1 }

/-- The outbox with the same content, the usual room, and the rule that keeps the latest value. -/
def Outbox.plain {α : Type} (box : Outbox α) : Outbox α :=
  { (create 1 .latest : Outbox α) with queue := box.queue, isClosed := box.isClosed }

end Delivery

def Plan.plain (plan : Plan) : Plan := { plan with delivery := plan.delivery.plain }

def Call.plain (call : Call) : Call :=
  { call with
    plan := call.plan.plain
    badge := ⟨call.plan.name, call.feed⟩
    badge_eq := rfl
    outbox := call.outbox.plain }

/-- The exchange without what its calls do when their outboxes are full. -/
def Exchange.plain (x : Exchange) : Exchange := { x with calls := x.calls.map (·.map Call.plain) }

def Scene.plain (s : Scene) : Scene := { s with exchange := s.exchange.plain }

namespace Erasure

/-- It is forgotten what calls do when their outboxes are full. -/
def ofOutboxes : Erasure where
  plan := Plan.plain
  outbox := Delivery.Outbox.plain

variable {x : Exchange}

lemma exchange_ofOutboxes (x : Exchange) : ofOutboxes.exchange x = x.plain := by
  have hjournal : x.journal.map ofOutboxes.entry = x.journal := List.map_id _
  unfold exchange
  rw [hjournal]
  rfl

lemma scene_ofOutboxes (s : Scene) : ofOutboxes.scene s = s.plain := by
  unfold scene
  rw [exchange_ofOutboxes]
  rfl

lemma fits_ofOutboxes (x : Exchange) : ofOutboxes.Fits x := fun _ _ => trivial

lemma countRetry_ofOutboxes (x : Exchange) (feed : FeedId) :
    x.plain.countRetry feed = (x.countRetry feed).plain := by
  have halarm : x.plain.alarm = x.alarm := rfl
  unfold Exchange.countRetry
  rw [halarm]
  split
  · split
    · rfl
    · rfl
  · rfl

lemma tell_ofOutboxes (x : Exchange) (c : CallId) (notice : Notice) :
    x.plain.tell c notice = (x.tell c notice).plain := by
  have hcall : x.plain.call? c = (x.call? c).map Call.plain := by
    rw [← exchange_ofOutboxes]
    exact call?_exchange x c
  unfold Exchange.tell Exchange.publish
  rw [hcall]
  cases x.call? c with
  | none => rfl
  | some call =>
    have hfeed : call.plain.feed = call.feed := rfl
    dsimp only [Option.map_some]
    rw [hfeed]
    cases call.feed with
    | none => rfl
    | some feed =>
      let told : Notice := { notice with call := some call.plan.name }
      let published : Exchange := { x.note (.told c told (some (feed, x.nextSeq))) with
        feeds := x.feeds.modify feed (·.send { told with seq := x.nextSeq })
        nextSeq := x.nextSeq + 1 }
      dsimp only
      split
      · exact countRetry_ofOutboxes published feed
      · rfl

theorem isLawful_ofOutboxes : ofOutboxes.IsLawful where
  plan := fun _ => rfl
  vacant := fun _ hopen hempty => ⟨hopen, hempty⟩
  append := fun _ _ => rfl
  pop box := by
    cases hqueue : box.queue <;>
      simp [Delivery.Outbox.pop, ofOutboxes, Delivery.Outbox.plain, hqueue]
  close := fun _ => rfl
  entry := fun _ _ => rfl
  tell x c notice _ := by
    rw [exchange_ofOutboxes, exchange_ofOutboxes]
    exact tell_ofOutboxes x c notice
  timer := fun _ => trivial
  retries := Or.inl fun _ => trivial

end Erasure

open Erasure in
/-- The course of a call does not depend on its outbox. -/
lemma Plan.course_plain (plan : Plan) (manner : Manner) :
    plan.plain.course manner = plan.course manner :=
  course_plan isLawful_ofOutboxes plan manner

namespace Exchange

open Erasure

variable {x y : Exchange} {c : CallId} {plan : Plan}

lemma call?_plain (x : Exchange) (c : CallId) : x.plain.call? c = (x.call? c).map Call.plain := by
  rw [← exchange_ofOutboxes]
  exact call?_exchange x c

lemma runnable_plain (x : Exchange) (c : CallId) :
    x.plain.runnable c = (x.runnable c).map Plan.plain := by
  rw [← exchange_ofOutboxes]
  exact runnable_exchange x c

lemma elapse_plain (x : Exchange) (nanos : Nat) :
    x.plain.elapse nanos = (x.elapse nanos).plain := by
  rw [← exchange_ofOutboxes, ← exchange_ofOutboxes]
  exact elapse_exchange isLawful_ofOutboxes (fits_ofOutboxes x) nanos

lemma opening_plain (x : Exchange) (manner : Manner) (c : CallId) (plan : Plan) :
    x.plain.opening manner c plan.plain = (x.opening manner c plan).plain := by
  rw [← exchange_ofOutboxes, ← scene_ofOutboxes]
  exact opening_exchange isLawful_ofOutboxes x manner c plan

/-- A blocking run comes to the same whatever the outboxes do when they are full. -/
theorem Ready.run_plain (hx : x.Ready) (c : CallId) :
    x.plain.run c = ((x.run c).1, (x.run c).2.plain) := by
  rw [← exchange_ofOutboxes, ← exchange_ofOutboxes]
  exact run_exchange isLawful_ofOutboxes (fits_ofOutboxes x) hx c

end Exchange

open Erasure in
/-- What steps lead to on one exchange, they lead to on another one that differs only in what its
calls do when their outboxes are full. -/
theorem Scene.Orderly.exists_reaches {s s' t : Scene} (hs : s.Orderly) (hs' : s'.Orderly)
    (hplain : s'.plain = s.plain) (h : Reaches Scene.step s t) :
    ∃ t', Reaches Scene.step s' t' ∧ t'.plain = t.plain := by
  rw [← scene_ofOutboxes, ← scene_ofOutboxes] at hplain
  obtain ⟨t', hreaches, hsame⟩ := Erasure.exists_reaches isLawful_ofOutboxes hs
    (fits_ofOutboxes _) hs' (fits_ofOutboxes _) hplain h
  rw [scene_ofOutboxes, scene_ofOutboxes] at hsame
  exact ⟨t', hreaches, hsame⟩

end Redial
