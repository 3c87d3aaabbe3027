import Redial.Proofs.CallSimulation

/-!
# Calls do not interfere

What happens to a call is up to what comes from outside: when it is run and disposed, and what its
user code comes to. Nothing else of what is going on around it makes a difference: what other calls
there are, what they do, how the runs are nested and which feeds are shared.
-/

namespace Redial

open StateTransition Relation

variable {c d : CallId} {u : Solo}

/-- Until a run is over, and at its end. -/
theorem Scene.Shows.exists_path_history {s : Scene} {y : Exchange} {how : Except Halt Unit}
    {manner : Manner} (h : s.Shows c u) (hs : s.Peaceful)
    (hreaches : Reaches Scene.step s ⟨.ended d how, [], y⟩) :
    ∃ v, u.Path (s.history c manner) v ∧ (manner.close y d).bare? c = some v.call ∧
      v.stage = .resting := by
  induction hreaches using ReflTransGen.head_induction_on generalizing u with
  | refl =>
    have hpasses : Exchange.Passes c y (manner.close y d) := .close manner y d
    rw [history_of_none rfl]
    by_cases hdc : d = c
    · exact exists_path_of_ended (h.own hdc) h.known hpasses
    · have halone : c ∉ workers ⟨.ended d how, [], y⟩ := by
        intro hworker
        exact hdc (List.mem_singleton.mp hworker).symm
      obtain ⟨v, hpath, hknown, hstage⟩ := hpasses.exists_path h.known (h.isIdle hdc)
      exact ⟨v, hpath, hknown, hstage.trans (h.resting halone)⟩
  | head hstep _ ih =>
    obtain ⟨v, hpath, hshows⟩ := h.exists_path hs hstep
    obtain ⟨w, hlater, hknown, hrests⟩ := ih hshows (hs.step hstep)
    rw [history_of_step hstep]
    exact ⟨w, hpath.append hlater, hknown, hrests⟩

namespace Exchange

/-- Between runs call `c` is as the call on its own, which rests. -/
structure Hosts (c : CallId) (x : Exchange) (u : Solo) : Prop where
  ready : x.Ready
  known : x.bare? c = some u.call
  resting : u.stage = .resting

variable {x y : Exchange} {manner : Manner} {plan : Plan} {how : Except Halt Unit}

namespace Hosts

lemma of_calls (h : x.Hosts c u) (hcalls : y.calls = x.calls) : y.Hosts c u := by
  refine ⟨h.ready.of_calls hcalls, Eq.trans ?_ h.known, h.resting⟩
  unfold bare?
  rw [call?_congr hcalls]

/-- A run of whichever call, from its beginning to its end. -/
lemma exists_path_runHistory (h : x.Hosts c u) (hrunnable : x.runnable d = .ok plan)
    (hreaches : Reaches Scene.step (x.opening manner d plan) ⟨.ended d how, [], y⟩) :
    ∃ v, u.Path (x.runHistory c manner d) v ∧ (manner.close y d).bare? c = some v.call ∧
      v.stage = .resting := by
  have horderly := h.ready.opening hrunnable manner
  have hpeaceful : (x.opening manner d plan).Peaceful := ⟨horderly, trivial, nofun⟩
  unfold runHistory
  rw [hrunnable]
  dsimp only
  by_cases hdc : d = c
  · subst hdc
    have hbegun : Scene.Shows d (x.opening manner d plan)
        (u.goTo (.running (u.call.plan.course manner))) :=
      .of_begun horderly h.known hrunnable
    obtain ⟨v, hpath, hknown, hrests⟩ := hbegun.exists_path_history hpeaceful hreaches
    rw [if_pos rfl]
    exact ⟨v, .cons (.of_begun h.resting manner) hpath, hknown, hrests⟩
  · have hshows : Scene.Shows c (x.opening manner d plan) u := by
      refine ⟨(bare?_setPresence x d manner.presence).trans h.known, ?_, nofun, fun _ => h.resting⟩
      exact fun hcall => absurd hcall hdc
    rw [if_neg hdc]
    exact hshows.exists_path_history hpeaceful hreaches

end Hosts

/-- The call on its own goes through the history, and is then as call `c` is on the exchange. -/
def Goes (c : CallId) (u : Solo) (h : History) (y : Exchange) : Prop :=
  ∃ v, u.Path h v ∧ y.Hosts c v

lemma Goes.trans {h h' : History} (hx : Goes c u h x) (hy : ∀ v, x.Hosts c v → Goes c v h' y) :
    Goes c u (h ++ h') y := by
  obtain ⟨v, hpath, hhosts⟩ := hx
  obtain ⟨w, hlater, hhosts'⟩ := hy v hhosts
  exact ⟨w, hpath.append hlater, hhosts'⟩

lemma Goes.of_calls {h : History} (hx : Goes c u h x) (hcalls : y.calls = x.calls) :
    Goes c u h y := by
  obtain ⟨v, hpath, hhosts⟩ := hx
  exact ⟨v, hpath, hhosts.of_calls hcalls⟩

namespace Hosts

/-- The call was left alone or disposed. -/
lemma goes_of_passes (h : x.Hosts c u) (hready : y.Ready) (hpasses : Passes c x y) :
    Goes c u (x.beat c y) y := by
  obtain ⟨v, hpath, hknown, hstage⟩ :=
    hpasses.exists_path h.known (Solo.isIdle_of_resting h.resting)
  exact ⟨v, hpath, hready, hknown, hstage.trans h.resting⟩

/-- Whatever is done to whom. -/
lemma goes_perform (h : x.Hosts c u) (deed : Deed) (d : CallId) :
    Goes c u (x.beat c (x.perform deed d).2) (x.perform deed d).2 :=
  h.goes_of_passes (h.ready.perform deed d) (.perform x deed d)

lemma goes_run (h : x.Hosts c u) (d : CallId) :
    Goes c u (x.runHistory c .blocking d) (x.run d).2 := by
  have hready := h.ready.run d
  cases hrunnable : x.runnable d with
  | error reply =>
    unfold runHistory
    rw [run_of_error hrunnable, hrunnable]
    exact ⟨u, .nil u, h⟩
  | ok plan =>
    obtain ⟨how, y, hran, hleads⟩ := leadsTo_run hrunnable
    obtain ⟨v, hpath, hknown, hrests⟩ := h.exists_path_runHistory hrunnable hleads.reaches
    rw [hran] at hready ⊢
    exact ⟨v, hpath, hready, hknown, hrests⟩

lemma goes_runAsync (h : x.Hosts c u) (d : CallId) :
    Goes c u (x.runHistory c .asynchronous d) (x.runAsync d).2 := by
  have hready := h.ready.runAsync d
  cases hrunnable : x.runnable d with
  | error reply =>
    unfold runHistory
    rw [runAsync_of_error hrunnable, hrunnable]
    exact ⟨u, .nil u, h⟩
  | ok plan =>
    obtain ⟨how, y, hran, hleads⟩ := leadsTo_runAsync hrunnable
    obtain ⟨v, hpath, hknown, hrests⟩ := h.exists_path_runHistory hrunnable hleads.reaches
    rw [hran] at hready ⊢
    exact ⟨v, hpath, hready, hknown, hrests⟩

lemma goes_runTimed (h : x.Hosts c u) (d : CallId) :
    Goes c u (x.timedHistory c d) (Session.runTimed d x).2 := by
  have hbegun : Exchange.Hosts c { x with timer := 0 } u := h.of_calls rfl
  exact hbegun.goes_runAsync d

/-- Neither the calls nor the journal change. -/
lemma goes_same (h : x.Hosts c u) (hcalls : y.calls = x.calls) (hjournal : y.journal = x.journal) :
    Goes c u (x.beat c y) y :=
  h.goes_of_passes (h.ready.of_calls hcalls) (.of_calls hcalls hjournal)

end Hosts

end Exchange

/-- A command that only looks at something or changes who reads. -/
def Command.isPassive : Command → Bool
  | isSignalled _ | info _ | debug _ | subscribe _ | unsubscribe => true
  | _ => false

namespace Session

open Exchange

variable {s : Session} {command : Command}

lemma goes_ifPresent {h : History} {f : Call → Answer × Session} (hs : s.exchange.Hosts c u)
    (hgoes : ∀ call, Goes c u h (f call).2.exchange) :
    Goes c u (s.ifPresent d h) (s.onCall d f).2.exchange := by
  unfold ifPresent onCall
  cases s.exchange.present? d with
  | none => exact ⟨u, .nil u, hs⟩
  | some call => exact hgoes call

/-- An alarm that goes off after the run may dispose the handle of the call. -/
lemma passes_runWatched (d : CallId) (n : Nat) (x : Exchange) :
    Passes c ((underWatch d n x).run d).2 (runWatched d n x).2 := by
  rcases runWatched_cases d n x with hquiet | ⟨nanos, hrang⟩
  · rw [hquiet]
    exact .of_calls rfl rfl
  · rw [hrang]
    exact (Passes.elapse _ nanos).trans (.of_calls rfl rfl)

lemma passes_spawn (d : CallId) (millis : Nat) (x : Exchange) :
    Passes c (runTimed d (underTimer d (millis + 1) x)).2 (spawn d (some (millis + 1)) x).2 := by
  rcases spawn_cases d millis x with hquiet | ⟨timer, alarm, hrang⟩
  · rw [hquiet]
    exact .of_calls rfl rfl
  · let y := { (runTimed d (underTimer d (millis + 1) x)).2 with timer }
    have hstarted : Passes c (runTimed d (underTimer d (millis + 1) x)).2 y := .of_calls rfl rfl
    rw [hrang]
    exact (hstarted.trans (.ring y alarm)).trans (.of_calls rfl rfl)

lemma exchange_execute_of_passive (s : Session) (hpassive : command.isPassive = true) :
    ∃ feeds, (s.execute command).2.exchange = { s.exchange with feeds := feeds } := by
  have honCall {d : CallId} {f : Call → Answer × Session}
      (hf : ∀ call, ∃ feeds, (f call).2.exchange = { s.exchange with feeds := feeds }) :
      ∃ feeds, (s.onCall d f).2.exchange = { s.exchange with feeds := feeds } := by
    unfold onCall
    split
    · exact ⟨_, rfl⟩
    · exact hf _
  cases command with
  | isSignalled d =>
    unfold execute
    dsimp only
    split
    · exact ⟨_, rfl⟩
    · exact ⟨_, rfl⟩
  | info d | debug d => exact honCall fun _ => ⟨_, rfl⟩
  | subscribe d =>
    refine honCall fun call => ?_
    split
    · exact ⟨_, rfl⟩
    · exact ⟨_, rfl⟩
  | unsubscribe => exact ⟨_, rfl⟩
  | run | runWatched | runAsync | spawn | runUnstaffed | close | dispose | drop => cases hpassive

lemma exchange_execute_drop (s : Session) (d : CallId) :
    (s.execute (.drop d)).2.exchange = (s.exchange.drop d).2 := by
  have hdropped : (s.update (·.drop d)).2.exchange = (s.exchange.drop d).2 := rfl
  unfold execute
  dsimp only
  split
  case h_1 _ heq | h_2 _ heq =>
    rw [heq] at hdropped
    exact hdropped

lemma goes_passive (hs : s.exchange.Hosts c u) (hpassive : command.isPassive = true) :
    Goes c u (s.exchange.beat c (s.execute command).2.exchange)
      (s.execute command).2.exchange := by
  obtain ⟨feeds, hfeeds⟩ := exchange_execute_of_passive s hpassive
  rw [hfeeds]
  exact hs.goes_same rfl rfl

/-- A command of whatever kind. -/
theorem goes_during (hs : s.exchange.Hosts c u) (command : Command) :
    Goes c u (s.during c command) (s.execute command).2.exchange := by
  cases command with
  | run d =>
    unfold during ifPresent execute
    dsimp only
    cases s.exchange.present? d with
    | none => exact ⟨u, .nil u, hs⟩
    | some call => exact hs.goes_run d
  | runWatched d n =>
    have hset : (underWatch d n s.exchange).Hosts c u := hs.of_calls rfl
    refine goes_ifPresent hs fun _ => (hset.goes_run d).trans fun v hv => ?_
    exact hv.goes_of_passes (isKept_ready.runWatched s.exchange d n hs.ready)
      (passes_runWatched d n s.exchange)
  | runAsync d => exact goes_ifPresent hs fun _ => hs.goes_runTimed d
  | spawn d disposeAfter =>
    cases disposeAfter with
    | none => exact goes_ifPresent hs fun _ => hs.goes_runTimed d
    | some millis =>
      cases millis with
      | zero =>
        exact goes_ifPresent hs fun _ =>
          (hs.goes_perform .dispose d).trans fun v hv => hv.goes_runTimed d
      | succ millis =>
        have hset : (underTimer d (millis + 1) s.exchange).Hosts c u := hs.of_calls rfl
        refine goes_ifPresent hs fun _ => (hset.goes_runTimed d).trans fun v hv => ?_
        exact hv.goes_of_passes (isKept_ready.spawn s.exchange d (some (millis + 1)) hs.ready)
          (passes_spawn d millis s.exchange)
  | runUnstaffed d =>
    have hbegun : Exchange.Hosts c { s.exchange with staffed := false } u := hs.of_calls rfl
    exact goes_ifPresent hs fun _ => (hbegun.goes_runAsync d).of_calls rfl
  | close d => exact hs.goes_perform .close d
  | dispose d => exact hs.goes_perform .dispose d
  | isSignalled | info | debug | subscribe | unsubscribe => exact goes_passive hs rfl
  | drop d =>
    show Goes c u (s.exchange.beat c (s.execute (.drop d)).2.exchange) _
    rw [exchange_execute_drop]
    exact hs.goes_perform .drop d

/-- Commands and what comes of them. -/
theorem goes_history (hs : s.exchange.Hosts c u) (commands : List Command) :
    Goes c u (s.history c commands) (s.steps commands).2.exchange := by
  induction commands generalizing s u with
  | nil => exact ⟨u, .nil u, hs⟩
  | cons command rest ih =>
    obtain ⟨feeds, hfeeds⟩ := exchange_collect (s.execute command).2
    have hstep : (s.step command).2.exchange = { (s.execute command).2.exchange with feeds } :=
      hfeeds
    have hsteps : (s.steps (command :: rest)).2 = ((s.step command).2.steps rest).2 := rfl
    have hread : Goes c u (s.during c command) (s.step command).2.exchange := by
      rw [hstep]
      exact (goes_during hs command).of_calls rfl
    rw [hsteps]
    exact hread.trans fun v hv => ih hv

/-- Nothing has been done in the session yet. -/
def IsOpened (s : Session) : Prop :=
  ∃ capacities drafts usual draws quiet, s = (openWith capacities drafts usual draws quiet).2

lemma IsOpened.hosts {call : Call} (h : s.IsOpened) (hknown : s.exchange.bare? c = some call) :
    s.exchange.Hosts c { call } := by
  obtain ⟨capacities, drafts, usual, draws, quiet, rfl⟩ := h
  exact ⟨ready_openWith capacities drafts usual draws quiet, hknown, rfl⟩

/-- What can be seen of call `c` in the views. -/
def sightings (c : CallId) (views : List View) : List Reaction :=
  (views.flatMap View.entries).filterMap (Entry.reaction? c)

/-- Two sessions know the same call, the one under the number `c` and the other under `c'`. At the
same points of its own history it meets with the same in both: it is begun and disposed there, its
user code comes to the same value or panics, somebody is there to invoke its body elsewhere or
nobody is, and the end of a pause can be named on the clock or cannot, which is up to the clock only
where it is about to run out. Then all that happens to the call is the same, all that can be seen of
it is, and the call is the same in the end. Its own user code may do other things to other calls on
the way, and all the rest may be different. -/
theorem calls_do_not_interfere {s s' : Session} (hopened : s.IsOpened) (hopened' : s'.IsOpened)
    {c c' : CallId} {call : Call} (hknown : s.exchange.bare? c = some call)
    (hknown' : s'.exchange.bare? c' = some call) {commands commands' : List Command}
    (hmeets : (s.history c commands).MeetsSame (s'.history c' commands')) :
    s.history c commands = s'.history c' commands' ∧
      sightings c (s.steps commands).1 = sightings c' (s'.steps commands').1 ∧
      (s.steps commands).2.exchange.bare? c = (s'.steps commands').2.exchange.bare? c' := by
  obtain ⟨v, hpath, hhosts⟩ := goes_history (hopened.hosts hknown) commands
  obtain ⟨v', hpath', hhosts'⟩ := goes_history (hopened'.hosts hknown') commands'
  obtain ⟨hhistory, rfl⟩ := hpath.unique hpath' hhosts.resting hhosts'.resting hmeets
  have hseen : sightings c (s.steps commands).1 = sightings c' (s'.steps commands').1 := by
    unfold sightings
    rw [← noted_history c s, ← noted_history c' s', hhistory]
  exact ⟨hhistory, hseen, hhosts.known.trans hhosts'.known.symm⟩

/-- A call that fails; its predicate and its callback are used. -/
def patient (body : Script Output) (predicate : Script Bool) (callback : Script Unit) : Draft where
  body := some fun _ => body
  name := "patient"
  predicate := some fun _ _ => predicate
  onFailure := some fun _ => callback
  feed := some 0

/-- The call is the only one, and disposes itself in its callback. -/
def lonely : Session :=
  let callback : Script Unit := .act .dispose 0 fun _ => .done ()
  (openWith [4] [patient (.done (.error .canceled)) (.done true) callback] (.usual .latest)
    (fun _ _ => 0) true).2

/-- The call is run by the body of another one that uses the same feed. Its body runs a third one,
its predicate tries in vain to run the first one again, and its callback runs a fourth one, which
disposes it. -/
def crowded : Session :=
  let host : Draft := { body := some fun _ => .run 1 fun _ => .panic "late", feed := some 0 }
  let helper : Draft := { body := some fun _ => .done (.ok ⟨true, "done"⟩), feed := some 0 }
  let striker : Draft := { body := some fun _ => .act .dispose 1 fun _ => .done (.error .canceled) }
  let busy : Draft := patient (.run 2 fun _ => .done (.error .canceled))
    (.run 0 fun _ => .done true) (.run 3 fun _ => .done ())
  (openWith [4] [host, busy, helper, striker] (.usual .latest) (fun _ _ => 0) true).2

def patientHistory : History :=
  let told (kind : EventKind) (error : Option String) : Happening :=
    .did (.told { kind, call := some "patient", attempt := some 1, error } true)
  [.felt (.begun .blocking),
    .did (.turned .running),
    told .attemptStarting none,
    .did (.invoked 1),
    .felt (.returned (.error .canceled : Output)),
    told .attemptFailed (some "call cancelled"),
    .did (.asked 1 .canceled),
    .felt (.returned true),
    .did (.consulted .canceled true),
    told .callFailed (some "call cancelled"),
    .did (.delivered (.failure .canceled)),
    .felt .disposed,
    .did (.turned .disposed),
    .did (.told { kind := .handleDisposed, call := some "patient" } true),
    .felt (.returned ()),
    .did (.ended (.ok ()))]

/-- The patient does not notice the difference. -/
theorem calls_do_not_interfere_crowded :
    lonely.history 0 [.run 0] = crowded.history 1 [.run 0] ∧
      sightings 0 (lonely.steps [.run 0]).1 = sightings 1 (crowded.steps [.run 0]).1 ∧
      (lonely.steps [.run 0]).2.exchange.bare? 0 = (crowded.steps [.run 0]).2.exchange.bare? 1 := by
  have hlonely : lonely.history 0 [.run 0] = patientHistory := history_run 40 rfl rfl
  have hcrowded : crowded.history 1 [.run 0] = patientHistory := history_run 80 rfl rfl
  have hmeets : (lonely.history 0 [.run 0]).MeetsSame (crowded.history 1 [.run 0]) := by
    rw [hlonely, hcrowded]
    exact .refl _
  exact calls_do_not_interfere ⟨_, _, _, _, _, rfl⟩ ⟨_, _, _, _, _, rfl⟩ rfl rfl hmeets

end Session

end Redial
