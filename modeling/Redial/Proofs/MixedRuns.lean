import Mathlib.Logic.Relation
import Redial.Proofs.CallLives
import Redial.Proofs.Scenes
import Redial.Proofs.SessionSteps

/-!
# Runs in either manner

Whoever holds a call can run it in a blocking manner or give it away to an asynchronous run, and
user code has the same choice inside the runs of other calls, time and again. What a call goes
through does not depend on these choices. So a history of an exchange is any sequence of deeds, of
new calls and of runs in which every request for a further run is met in one manner or the other.
-/

namespace Redial

namespace Exchange

/-- A run of call `c` in a given manner; requests for further runs are met by `nesting`. -/
def runIn (nesting : Nesting) (manner : Manner) (c : CallId) (x : Exchange) :
    RunReply × Exchange :=
  match x.runnable c with
  | .error reply => (reply, x)
  | .ok plan =>
    let (how, x) := follow nesting c (plan.course manner) (x.setPresence c manner.presence)
    (.ended how, manner.close x c)

/-- Runs up to a depth, each in the manner that is chosen for it when it is asked for. As the
journal tells of all that was asked for before, the choice can be another one each time. -/
def runMixed (choose : CallId → Exchange → Manner) : Nat → Nesting
  | 0 => runWithin 0
  | depth + 1 => fun c x => x.runIn (runMixed choose depth) (choose c x) c

/-- One thing that happens on an exchange. -/
inductive Occurs (x : Exchange) : Exchange → Prop where
  /-- The calls and the journal stay as they are. -/
  | same {y : Exchange} (hcalls : y.calls = x.calls) (hjournal : y.journal = x.journal) : Occurs x y
  | build (plan : Plan) (listed : Bool) : Occurs x (x.addPlan plan listed)
  | perform (deed : Deed) (d : CallId) : Occurs x (x.perform deed d).2
  | run (choose : CallId → Exchange → Manner) (depth : Nat) (manner : Manner) (d : CallId) :
    Occurs x (x.runIn (runMixed choose depth) manner d).2

/-- The first exchange has become the second one in the course of its history. -/
abbrev Becomes : Exchange → Exchange → Prop := Relation.ReflTransGen Occurs

variable {x y : Exchange} {c d : CallId} {n : Nat} {plan : Plan} {nesting : Nesting}

lemma runWithin_succ (depth : Nat) (c : CallId) (x : Exchange) :
    x.runWithin (depth + 1) c = x.runIn (runWithin depth) .blocking c := by
  unfold runWithin runIn
  cases x.runnable c <;> rfl

/-- Blocking runs are those for which this manner is chosen each time. -/
lemma runMixed_blocking (depth : Nat) : runMixed (fun _ _ => .blocking) depth = runWithin depth := by
  induction depth with
  | zero => rfl
  | succ depth ih =>
    funext c x
    rw [runMixed, ih, runWithin_succ]

lemma runAsync_eq (c : CallId) (x : Exchange) :
    x.runAsync c = x.runIn (runWithin x.calls.length) .asynchronous c := by
  have hlength : (x.setPresence c .gone).calls.length = x.calls.length := List.length_modify ..
  unfold runAsync runIn
  cases x.runnable c with
  | error reply => rfl
  | ok plan =>
    dsimp only
    rw [hlength]
    rfl

namespace Becomes

lemma same (hcalls : y.calls = x.calls) (hjournal : y.journal = x.journal) : Becomes x y :=
  .single (.same hcalls hjournal)

lemma runIn (x : Exchange) (depth : Nat) (manner : Manner) (d : CallId) :
    Becomes x (x.runIn (runWithin depth) manner d).2 := by
  have hran := Occurs.run (x := x) (fun _ _ => .blocking) depth manner d
  rw [runMixed_blocking] at hran
  exact .single hran

lemma run (x : Exchange) (d : CallId) : Becomes x (x.run d).2 := by
  unfold Exchange.run
  cases x.calls.length with
  | zero =>
    unfold runWithin
    split
    · exact .refl
    · exact .refl
  | succ depth =>
    rw [runWithin_succ]
    exact runIn x depth .blocking d

lemma runAsync (x : Exchange) (d : CallId) : Becomes x (x.runAsync d).2 := by
  rw [runAsync_eq]
  exact runIn x _ .asynchronous d

end Becomes

/-- What a session does to its exchange is a part of its history. -/
lemma isKept_becomes : IsKept Becomes where
  same := .same
  trans := .trans
  perform _ deed d := .single (.perform deed d)
  run := .run
  runAsync := .runAsync

lemma Ages.addPlan (x : Exchange) (plan : Plan) (listed : Bool) :
    Ages c x (x.addPlan plan listed) := by
  have hacts : (x.addPlan plan listed).acts c = x.acts c :=
    acts_congr (journal_addPlan x plan listed) c
  refine ⟨fun call hcall => ?_, fun n hbegun => ⟨?_, hacts⟩, fun known hunused => ?_⟩
  · exact ⟨call, call?_addPlan_of_known hcall plan listed, rfl, Nat.le_refl _⟩
  · obtain ⟨call, hcall, hstate⟩ := hbegun
    exact ⟨call, call?_addPlan_of_known hcall plan listed, hstate⟩
  · obtain ⟨call, hcall, hidle⟩ := hunused
    exact Or.inl ⟨⟨call, call?_addPlan_of_known hcall plan listed, hidle⟩, hacts⟩

lemma Ages.close (manner : Manner) (x : Exchange) (d : CallId) : Ages c x (manner.close x d) := by
  cases manner with
  | blocking => exact .setPresence x d .here
  | asynchronous => exact .release x d

/-- What becomes of a call in a run of any call, whatever answers the requests inside it. -/
theorem ages_runIn (hnesting : nesting.Ages c) (manner : Manner) (d : CallId) (x : Exchange) :
    Ages c x (x.runIn nesting manner d).2 := by
  unfold runIn
  split
  case h_1 => exact .refl c x
  case h_2 plan hrunnable =>
    have hran := ages_follow hnesting (Course.isRun_course plan manner)
      (plan_setPresence hrunnable manner.presence)
    exact ((Ages.setPresence x d manner.presence).trans hran).trans (.close manner _ d)

theorem ages_runMixed (c : CallId) (choose : CallId → Exchange → Manner) (depth : Nat) :
    Nesting.Ages (runMixed choose depth) c := by
  induction depth with
  | zero =>
    intro d x
    unfold runMixed runWithin
    split
    · exact .refl c x
    · exact .refl c x
  | succ depth ih => exact fun d x => ages_runIn ih (choose d x) d x

/-- Whatever happens on an exchange leads a call on in its life. -/
theorem Becomes.ages (h : Becomes x y) (c : CallId) : Ages c x y := by
  induction h with
  | refl => exact .refl c x
  | tail _ hstep ih =>
    refine ih.trans ?_
    cases hstep with
    | same hcalls hjournal => exact .of_same hcalls hjournal
    | build plan listed => exact .addPlan _ plan listed
    | perform deed d => exact .perform _ deed d
    | run choose depth manner d => exact ages_runIn (ages_runMixed c choose depth) manner d _

end Exchange

end Redial
