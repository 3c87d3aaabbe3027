import Redial.Proofs.MixedRuns
import Redial.Proofs.SuccessiveRaces

/-!
# At most one run

One can ask a call to run as often as one likes, in either manner, and so can user code, its own
included. One of these runs at most gets hold of the handle, and all that the call ever does is done
by this one.
-/

namespace Redial

namespace Exchange

variable {x : Exchange} {c : CallId} {n : Nat} {plan : Plan} {nesting : Nesting}

/-- Every operation of a session leads a call on in its life. -/
lemma isKept_ages (c : CallId) : IsKept (Ages c) where
  same := .of_same
  trans := .trans
  perform := .perform
  run x d := (Becomes.run x d).ages c
  runAsync x d := (Becomes.runAsync x d).ages c

/-- A call whose handle is not idle has begun. -/
lemma Begun.of_keeps {y : Exchange} (hx : x.Begun c n) (h : Keeps c x y) : ∃ m, y.Begun c m := by
  obtain ⟨call, hcall, hstate, -⟩ := hx
  obtain ⟨after, hafter, -, hrank⟩ := h call hcall
  exact ⟨_, after, hafter, HandleState.ne_idle_of_rank_le hrank hstate, rfl⟩

lemma exists_begun_start (hknown : ∃ call, x.call? c = some call) :
    ∃ n, (x.start c).2.Begun c n := by
  obtain ⟨call, hcall⟩ := hknown
  by_cases hidle : call.handle.state = .idle
  · obtain ⟨y, hstart, -, hy⟩ := start_of_idle hcall hidle
    rw [hstart]
    exact ⟨_, hy⟩
  · rw [start_of_begun hcall hidle]
    exact ⟨_, call, hcall, hidle, rfl⟩

/-- After a run of its own a call has begun, however the run ends. -/
lemma exists_begun_follow (hnesting : nesting.Ages c) {course : Course}
    (hrun : course.IsRun plan) (hknown : ∃ call, x.call? c = some call) :
    ∃ n, (follow nesting c course x).2.Begun c n := by
  obtain ⟨next, rfl, -⟩ := hrun
  obtain ⟨n, hstarted⟩ := exists_begun_start hknown
  exact hstarted.of_keeps (serves_follow hnesting (next (x.start c).1) (x.start c).2).keeps

lemma exists_call?_setPresence (hrunnable : x.runnable c = .ok plan) (presence : Presence) :
    ∃ call, (x.setPresence c presence).call? c = some call := by
  obtain ⟨call, hcall, -⟩ := exists_of_runnable hrunnable
  refine ⟨{ call with presence }, ?_⟩
  exact call?_modify_of_known hcall _

theorem exists_begun_of_ended (hnesting : nesting.Ages c) {manner : Manner}
    {how : Except Halt Unit} (h : (x.runIn nesting manner c).1 = .ended how) :
    ∃ n, (x.runIn nesting manner c).2.Begun c n := by
  unfold runIn at h ⊢
  split
  case h_1 reply hrunnable =>
    rw [hrunnable] at h
    exact absurd h (runnable_ne_ended hrunnable how)
  case h_2 plan hrunnable =>
    obtain ⟨n, hbegun⟩ := exists_begun_follow hnesting (Course.isRun_course plan manner)
      (exists_call?_setPresence hrunnable manner.presence)
    exact ⟨n, ((Ages.close manner _ c).begun n hbegun).1⟩

/-- Wherever a run or user code stands, the handle of a call does not go back from there on. -/
theorem keeps_follow (hnesting : nesting.Ages c) (d : CallId) (course : Course) (x : Exchange) :
    Keeps c x (follow nesting d course x).2 := by
  by_cases hdc : d = c
  · subst hdc
    exact (serves_follow hnesting course x).keeps
  · exact (ages_follow_of_ne hdc hnesting course x).keeps

end Exchange

namespace Session

open Exchange

section Opened

variable (capacities : List Nat) (drafts : List Draft) (usual : Delivery.Settings)
  (draws : Nat → Nat → Nat) (quiet : Bool) {c : CallId} {call : Call}

lemma acts_openWith (c : CallId) :
    (openWith capacities drafts usual draws quiet).2.exchange.acts c = [] := by
  unfold acts
  rw [(opened_openWith capacities drafts usual draws quiet).1]
  rfl

lemma unused_openWith
    (hcall : (openWith capacities drafts usual draws quiet).2.exchange.call? c = some call) :
    (openWith capacities drafts usual draws quiet).2.exchange.Unused c call.plan := by
  have hnew : (openWith capacities drafts usual draws quiet).2.exchange.Every fun call =>
      call.handle.state = .idle ∧ call.outbox.size = 0 :=
    (opened_openWith capacities drafts usual draws quiet).2 _ fun _ _ _ => ⟨rfl, rfl⟩
  obtain ⟨hidle, hempty⟩ := hnew c call hcall
  exact ⟨call, hcall, rfl, hidle, hempty⟩

/-- A call has at most one run. Over any history of its exchange, in which everybody runs calls in
either manner as they like, it invokes its body no more often than its plan has attempts, invokes
one callback at most, once, and tells once at most that it is over. All of this is done between two
states of its handle: nothing while it is idle, and nothing more once it has been left otherwise.
The handle never goes back. Inside runs and user code the same holds from any moment to the end: the
handle does not go back, and user code adds nothing to what a call does that has begun. A run leaves
its call begun, however it ends, and so a further one does nothing. What the commands of a session
do is such a history. Among other threads that use the handle at any time, the same holds of the
runs of the call one after the other, each broken off wherever a panic may do so. -/
theorem call_has_one_run
    (hcall : (openWith capacities drafts usual draws quiet).2.exchange.call? c = some call)
    {x y : Exchange} (hx : Becomes (openWith capacities drafts usual draws quiet).2.exchange x)
    (hy : Becomes x y) :
    (∃ before after, x.call? c = some before ∧ y.call? c = some after ∧
      before.plan = call.plan ∧ after.plan = call.plan ∧
      before.handle.state.rank ≤ after.handle.state.rank ∧
      (before.handle.state = .idle → x.acts c = []) ∧
      (before.handle.state ≠ .idle → y.acts c = x.acts c)) ∧
    (x.acts c).countP Act.isBody ≤ call.plan.limit.retries + 1 ∧
    (x.acts c).countP Act.isCallback ≤ 1 ∧
    (x.acts c).countP Act.isEnding ≤ 1 ∧
    (∀ choose depth (d : CallId) (course : Course) (z : Exchange),
      Keeps c z (follow (runMixed choose depth) d course z).2) ∧
    (∀ choose depth (role : Role) (d : CallId) (α : Type) (script : Script α) (z : Exchange),
      Keeps c z (play (runMixed choose depth) role d script z).2 ∧
      ∀ n, z.Begun c n → (play (runMixed choose depth) role d script z).2.acts c = z.acts c) ∧
    (∀ choose depth manner (z : Exchange) (how : Except Halt Unit),
      (z.runIn (runMixed choose depth) manner c).1 = .ended how →
        ∃ n, (z.runIn (runMixed choose depth) manner c).2.Begun c n) ∧
    (∀ choose depth manner (d : CallId) (z : Exchange) (n : Nat), z.Begun c n →
      (z.runIn (runMixed choose depth) manner d).2.acts c = z.acts c) ∧
    (∀ (s : Session) (commands : List Command),
      Becomes s.exchange (s.steps commands).2.exchange) ∧
    (∀ (strides : List Stride) (r s : Race), r.follow strides = some s →
      r.around.state.rank ≤ s.around.state.rank) ∧
    ∀ (manner : Manner) (shared : SharedHandle) (first later : List (Manner × List Stride))
      (e f : Surroundings),
      (Race.begin call.plan manner shared).around.live call.plan first = some e →
      e.live call.plan later = some f →
        e.state.rank ≤ f.state.rank ∧
        (e.state = .idle → Surroundings.actsIn first = []) ∧
        (e.state ≠ .idle → Surroundings.actsIn later = []) ∧
        (Surroundings.actsIn first).countP Act.isBody ≤ call.plan.limit.retries + 1 ∧
        (Surroundings.actsIn first).countP Act.isCallback ≤ 1 ∧
        (Surroundings.actsIn first).countP Act.isEnding ≤ 1 := by
  have hages := hx.ages c
  have hnothing := acts_openWith capacities drafts usual draws quiet c
  obtain ⟨before, hbefore, hplan, -⟩ := hages.keeps call hcall
  obtain ⟨after, hafter, hplan', hrank⟩ := (hy.ages c).keeps before hbefore
  have hlife := hages.unused call.plan (unused_openWith capacities drafts usual draws quiet hcall)
  have hcovers : call.plan.allowance.Covers (x.acts c) := by
    rcases hlife with ⟨-, hacts⟩ | ⟨n, l, -, hacts, hcovers⟩
    · rw [hacts, hnothing]
      exact Allowance.covers_nil _
    · rw [hacts, hnothing]
      exact hcovers
  refine ⟨⟨before, after, hbefore, hafter, hplan, hplan'.trans hplan, hrank, fun hidle => ?_,
    fun hstate => ((hy.ages c).begun _ ⟨before, hbefore, hstate, rfl⟩).2⟩, hcovers.bodies,
    hcovers.callbacks, hcovers.endings,
    fun choose depth => keeps_follow (ages_runMixed c choose depth),
    fun choose depth role d α script z => ?_,
    fun choose depth manner z how => exists_begun_of_ended (ages_runMixed c choose depth),
    fun choose depth manner d z n hbegun => ?_, fun s => kept_steps isKept_becomes s,
    fun strides r s => Race.rank_follow, fun manner shared first later e f hfirst hlater => ?_⟩
  · rcases hlife with ⟨-, hacts⟩ | ⟨n, l, ⟨known, hknown, hstate, -⟩, -⟩
    · exact hacts.trans hnothing
    · cases hbefore.symm.trans hknown
      exact absurd hidle hstate
  · have hplayed := ages_play (ages_runMixed c choose depth) role d script z
    exact ⟨hplayed.keeps, fun n hbegun => (hplayed.begun n hbegun).2⟩
  · exact ((ages_runIn (ages_runMixed c choose depth) manner d z).begun n hbegun).2
  · have hraced := Surroundings.ages_live hfirst
    have hempty : (Race.begin call.plan manner shared).around.outbox.size = 0 := rfl
    have hraceCovers := hraced.covers hempty
    have hlate := Surroundings.ages_live hlater
    exact ⟨hlate.rank, hraced.nothing hempty, hlate.begun, hraceCovers.bodies, hraceCovers.callbacks,
      hraceCovers.endings⟩

end Opened

/-- The first request runs a call in a blocking manner, and each later one gives it away. -/
def giveAwayAfterwards (c : CallId) (x : Exchange) : Manner :=
  if (x.acts c).isEmpty then .blocking else .asynchronous

/-- The body of the second call runs the first one, whose callback panics after a second attempt,
and then gives it away to an asynchronous run; it panics itself, is run again and asks for more. The
first call has done all it will ever do in the first of these runs. In the race the body panics in a
blocking run while another thread disposes the handle; the asynchronous run after it does nothing. -/
theorem call_has_one_run_mixed :
    let first : Draft :=
      { body := some fun n => .done (if n = 1 then .error .canceled else .ok ⟨true, "done"⟩)
        limit := ⟨1, by decide⟩
        onSuccess := some fun _ => .panic "late" }
    let second : Draft := { body := some fun _ => .run 0 fun _ => .run 0 fun _ => .panic "late" }
    let opened := (openWith [] [first, second] (.usual .latest) (fun _ _ => 0) true).2.exchange
    let x := (opened.runIn (runMixed giveAwayAfterwards 1) .blocking 1).2
    let y := (x.runIn (runMixed giveAwayAfterwards 1) .blocking 1).2
    let broken : List (Manner × List Stride) := [(.blocking, [.started true, .looked false,
      .told { kind := .attemptStarting, attempt := some 1 }, .bodyBegan, .other 0])]
    let late : List (Manner × List Stride) := [(.asynchronous, [.other 0, .started false, .other 0])]
    ∃ call, opened.call? 0 = some call ∧ Becomes opened x ∧ Becomes x y ∧
      (x.acts 0).countP Act.isBody = 2 ∧
      (x.acts 0).countP Act.isBody ≤ call.plan.limit.retries + 1 ∧
      (x.acts 0).countP Act.isCallback = 1 ∧ (x.acts 0).countP Act.isEnding = 1 ∧
      (x.call? 0).map (·.presence) = some .gone ∧ y.acts 0 = x.acts 0 ∧
      ∃ e f, (Race.begin call.plan .blocking { uses := [.disposing] }).around.live call.plan broken =
          some e ∧ e.live call.plan late = some f ∧ e.state = .disposed ∧ f.state = .disposed ∧
        (Surroundings.actsIn broken).countP Act.isBody = 1 ∧ Surroundings.actsIn late = [] := by
  intro first second opened x y broken late
  obtain ⟨call, hcall⟩ : ∃ call, opened.call? 0 = some call := ⟨_, rfl⟩
  have hx : Becomes opened x := .single (.run giveAwayAfterwards 1 .blocking 1)
  have hy : Becomes x y := .single (.run giveAwayAfterwards 1 .blocking 1)
  have h := call_has_one_run [] [first, second] (.usual .latest) (fun _ _ => 0) true hcall hx hy
  obtain ⟨⟨before, -, hbefore, -, -, -, -, -, hdone⟩, hbodies, -, -, -, -, -, -, -, -, hlives⟩ := h
  have hgone : (x.call? 0).map (·.presence) = some .gone := by decide +kernel
  have hreleased : (x.call? 0).map (·.handle.state) = some .disposed := by decide +kernel
  have hstate : before.handle.state ≠ .idle := by
    intro hidle
    rw [hbefore, Option.map_some, hidle] at hreleased
    cases hreleased
  obtain ⟨e, f, hbroken, hlate, he, hf⟩ : ∃ e f,
      (Race.begin call.plan .blocking { uses := [.disposing] }).around.live call.plan broken =
        some e ∧ e.live call.plan late = some f ∧ e.state = .disposed ∧ f.state = .disposed := by
    cases hcall
    exact ⟨_, _, rfl, rfl, rfl, rfl⟩
  have hrace := hlives .blocking { uses := [.disposing] } broken late e f hbroken hlate
  have hnothing : Surroundings.actsIn late = [] := hrace.2.2.1 (by rw [he]; nofun)
  exact ⟨call, hcall, hx, hy, by decide +kernel, hbodies, by decide +kernel, by decide +kernel, hgone,
    hdone hstate, e, f, hbroken, hlate, he, hf, by decide +kernel, hnothing⟩

end Session

end Redial
