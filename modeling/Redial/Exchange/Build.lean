import Redial.Capacity
import Redial.Exchange.Run

/-!
# Building calls

Putting drafts onto an exchange, and calls that are built, run and dropped in one go.
-/

namespace Redial.Exchange

/-- An exchange before its first call: its feeds, and the number that its first event gets. -/
def withFeeds (capacities : List Nat) (first : Nat) : Exchange :=
  { feeds := capacities.map Feed.create, nextSeq := first }

def openFeed (x : Exchange) (capacity : Nat) : FeedId × Exchange :=
  (x.feeds.length, { x with feeds := x.feeds ++ [.create capacity] })

/-- Adds the call of a plan, listed or not, with a feed of its own if the plan asks for one. -/
def addPlan (x : Exchange) (plan : Plan) (listed : Bool) : Exchange :=
  let (feed, x) := match plan.feed with
    | .none => (none, x)
    | .shared feed => (some feed, x)
    | .own =>
      let (feed, x) := x.openFeed plan.delivery.feedRoom
      (some feed, x)
  { x with calls := x.calls ++ [some (plan.toCall feed listed)] }

/-- Adds the call of a draft. A draft that is no plan uses up a number all the same. -/
def addDraft (x : Exchange) (draft : Draft) (usual : Delivery.Settings) (draws : Nat → Nat) :
    Except DraftError Unit × Exchange :=
  match draft.plan usual draws with
  | .error e => (.error e, { x with calls := x.calls ++ [none] })
  | .ok plan => (.ok (), x.addPlan plan true)

/-- Adds drafts in order, each with its own random numbers. -/
def addDrafts (x : Exchange) (usual : Delivery.Settings) (draws : Nat → Nat → Nat)
    (drafts : List Draft) : List (Except DraftError Unit) × Exchange :=
  drafts.foldl
    (fun (built, x) draft =>
      let (answer, x) := x.addDraft draft usual (draws x.calls.length)
      (built ++ [answer], x))
    ([], x)

/-- Builds the call of a plan, runs it on the own thread and drops it, whether it ends or panics.
Nobody gets to know the call, so it is not listed. -/
def callOnce (x : Exchange) (plan : Plan) : RunReply × Exchange :=
  let c := x.calls.length
  let (reply, x) := (x.addPlan plan false).run c
  (reply, (x.drop c).2)

end Redial.Exchange

namespace Redial.Plan

/-- The plan of a call with the least of choices: a body and how often to retry it. -/
def oneShot (body : Body) (retries : Int) (retryUnsuccessful : Bool)
    (predicate : Option Retry.Predicate) (onSuccess : Option (Result → Script Unit))
    (onFailure : Option (Fault → Script Unit)) (usual : Delivery.Settings) : Plan where
  name := "call"
  body := body
  limit := .ofInt retries .none
  rule := ⟨predicate, retryUnsuccessful⟩
  backoff := .immediate
  draws _ := 0
  onSuccess := onSuccess
  onFailure := onFailure
  delivery := usual
  feed := .none

/-- The queues that the call of a plan needs can be set up: a feed of its own, then its outbox. -/
def checkCapacities (plan : Plan) : Except Oversize Unit := do
  match plan.feed with
  | .own => Capacity.checkFeed plan.delivery.feedRoom
  | _ => pure ()
  Capacity.checkOutbox plan.delivery.outboxRoom Capacity.verdictPlace

end Redial.Plan
