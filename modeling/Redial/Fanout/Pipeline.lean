import Redial.Exchange.Build
import Redial.Fanout.Thread

/-!
# Pipelines

One call with a feed of its own and a hub that listens to it, all on one thread. During a blocking
run the hub gets no chance, so it hears of everything at the end. An asynchronous run lets it work
whenever the run waits: for a body that is invoked elsewhere, or for the end of a pause.
-/

namespace Redial.Fanout

inductive Mode where
  | blocking
  | async
  deriving DecidableEq

structure PipelineRun where
  reply : RunReply
  entries : List Entry
  hub : Hub

/-- The hub learns of one entry of the journal; `turns` tells whether the tasks get shifts while the
run waits. -/
def Thread.hear (turns : Bool) (t : Thread) : Entry → Thread
  | .told _ notice (some (_, seq)) =>
    (t.act (.send { notice with seq })).callListener Rota.callInside
  | .invoked _ _ => if turns then t.settle else t
  | .waited _ _ => if turns then t.settle else t
  | _ => t

/-- Builds the call of a draft with events, runs it, and lets the hub hear of it. The call is not
listed, so its user code reaches no call at all. -/
def runPipeline (draft : Draft) (usual : Delivery.Settings) (subscribers : List Subscriber)
    (mode : Mode) : Except Oversize (Except DraftError PipelineRun) :=
  match draft.plan usual fun _ => 0 with
  | .error e => .ok (.error e)
  | .ok plan => do
    plan.checkCapacities
    let thread ← Thread.ofSubscribers subscribers
    let thread ← thread.listen plan.delivery.feedRoom
    let (reply, x) := match mode with
      | .blocking => ({} : Exchange).callOnce plan
      | .async => (({} : Exchange).addPlan plan false).runAsync 0
    let entries := x.journal.reverse
    let heard := entries.foldl (Thread.hear (mode = .async)) thread
    return .ok ⟨reply, entries, heard.closeFeed.shutdown.hub⟩

end Redial.Fanout
