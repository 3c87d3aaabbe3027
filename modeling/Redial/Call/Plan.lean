import Redial.Call.Outcome
import Redial.Call.Script
import Redial.Delay.Backoff
import Redial.Delivery.Settings
import Redial.Retry.Limit
import Redial.Retry.Rule

/-!
# Plans

What a call is to do, fixed before it runs. A draft collects choices; choosing again replaces the
former choice. A plan is a draft with a run body.
-/

namespace Redial

/-- A run body; the argument counts its invocations, from one on. -/
abbrev Body := Nat → Script Output

abbrev FeedId := Nat

inductive FeedChoice where
  | none
  | own
  | shared (feed : FeedId)
  deriving DecidableEq

inductive Choice where
  | body (body : Body)
  | name (name : String)
  | maxRetries (n : Int) (negative : Retry.NegativeCount)
  | limit (limit : Retry.Limit)
  | retryUnsuccessful (enabled : Bool)
  | predicate (predicate : Retry.Predicate)
  | maybePredicate (predicate : Option Retry.Predicate)
  | onSuccess (callback : Result → Script Unit)
  | onFailure (callback : Fault → Script Unit)
  | backoff (backoff : Delay.Backoff)
  | delivery (settings : Delivery.Settings)
  | feed (feed : FeedId)
  /-- Asks for a feed of its own, unless a shared one is chosen. -/
  | withEvents

structure Draft where
  body : Option Body := none
  name : String := "call"
  limit : Retry.Limit := .zero
  retryUnsuccessful : Bool := false
  predicate : Option Retry.Predicate := none
  onSuccess : Option (Result → Script Unit) := none
  onFailure : Option (Fault → Script Unit) := none
  backoff : Delay.Backoff := .immediate
  delivery : Option Delivery.Settings := none
  feed : Option FeedId := none
  events : Bool := false

inductive DraftError where
  | missingBody
  deriving DecidableEq

namespace DraftError

def label : DraftError → String
  | missingBody => "config_missing_run_body"

def message : DraftError → String
  | missingBody => "run body is required"

end DraftError

/-- What a call is to do. -/
structure Plan where
  name : String
  body : Body
  limit : Retry.Limit
  rule : Retry.Rule
  backoff : Delay.Backoff
  /-- The random number for the jitter of each retry. -/
  draws : Nat → Nat
  onSuccess : Option (Result → Script Unit)
  onFailure : Option (Fault → Script Unit)
  delivery : Delivery.Settings
  feed : FeedChoice

namespace Draft

def empty : Draft := {}

def choose (draft : Draft) : Choice → Draft
  | .body body => { draft with body := some body }
  | .name name => { draft with name }
  | .maxRetries n negative => { draft with limit := .ofInt n negative }
  | .limit limit => { draft with limit }
  | .retryUnsuccessful enabled => { draft with retryUnsuccessful := enabled }
  | .predicate predicate => { draft with predicate := some predicate }
  | .maybePredicate predicate => { draft with predicate }
  | .onSuccess callback => { draft with onSuccess := some callback }
  | .onFailure callback => { draft with onFailure := some callback }
  | .backoff backoff => { draft with backoff }
  | .delivery settings => { draft with delivery := some settings }
  | .feed feed => { draft with feed := some feed }
  | .withEvents => { draft with events := true }

def ofChoices (choices : List Choice) : Draft := choices.foldl choose empty

/-- A chosen feed counts even if events are asked for as well. -/
def feedChoice (draft : Draft) : FeedChoice :=
  match draft.feed with
  | some feed => .shared feed
  | none => if draft.events then .own else .none

/-- The plan of a draft. `usual` are the delivery settings if none are chosen. -/
def plan (draft : Draft) (usual : Delivery.Settings) (draws : Nat → Nat) :
    Except DraftError Plan :=
  match draft.body with
  | none => .error .missingBody
  | some body => .ok {
      name := draft.name
      body
      limit := draft.limit
      rule := ⟨draft.predicate, draft.retryUnsuccessful⟩
      backoff := draft.backoff
      draws
      onSuccess := draft.onSuccess
      onFailure := draft.onFailure
      delivery := draft.delivery.getD usual
      feed := draft.feedChoice }

end Draft

end Redial
