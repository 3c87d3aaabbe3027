import Redial.Proofs.LoneCalls
import Redial.Proofs.OrderlyScenes

/-!
# Bystanders

What others do leaves a call alone, apart from one thing: they can dispose its handle. Whatever the
run of another call does, whatever deed user code does and to whom, afterwards the call is as it was
and the journal tells nothing new of it, or its handle has been disposed and this has been told.
-/

namespace Redial

open StateTransition

lemma Call.handle_of_bare {call call' : Call} (h : call.bare = call') :
    call.handle = call'.handle := by
  rw [← h]
  rfl

lemma Call.tells_bare (call : Call) (notice : Notice) :
    call.bare.tells notice = call.tells notice := by
  have hsame : call.bare.feed.isSome = call.feed.isSome := Option.isSome_map
  unfold tells
  rw [hsame]
  rfl

/-- User code of a sequel notes nothing of others than its call. -/
def Sequel.IsSigned {α : Type} (sequel : Sequel α) (c : CallId) : Prop :=
  ∀ value entry, sequel.entry value = some entry → ∀ d, d ≠ c → entry.reaction? d = none

namespace Exchange

/-- From `x` to `y` call `c` was left alone, or its handle was disposed. -/
def Passes (c : CallId) (x y : Exchange) : Prop :=
  ∃ new, y.journal = new ++ x.journal ∧
    ((y.bare? c = x.bare? c ∧ new.filterMap (Entry.reaction? c) = []) ∨
      ∃ call, x.bare? c = some call ∧ call.handle.isDisposed = false ∧
        y.bare? c = some call.disposed ∧
        new.filterMap (Entry.reaction? c) = [call.tells { kind := .handleDisposed }])

variable {x y z : Exchange} {c d : CallId}

/-- A change that does not show. -/
lemma bare?_modify (x : Exchange) (d : CallId) {f : Call → Call}
    (hf : ∀ call, (f call).bare = call.bare) : (x.modify d f).bare? c = x.bare? c := by
  unfold bare?
  rw [call?_modify]
  split
  · rw [Option.map_map]
    exact congrArg (fun g => (x.call? c).map g) (funext hf)
  · rfl

lemma bare?_setPresence (x : Exchange) (d : CallId) (presence : Presence) :
    (x.setPresence d presence).bare? c = x.bare? c :=
  bare?_modify x d fun _ => rfl

namespace Passes

lemma journal (h : Passes c x y) : x.journal <:+ y.journal := by
  obtain ⟨new, hnew, -⟩ := h
  exact ⟨new, hnew.symm⟩

lemma of_bare (hbare : y.bare? c = x.bare? c) (hjournal : y.journal = x.journal) : Passes c x y :=
  ⟨[], hjournal, Or.inl ⟨hbare, rfl⟩⟩

lemma of_calls (hcalls : y.calls = x.calls) (hjournal : y.journal = x.journal) : Passes c x y := by
  refine of_bare ?_ hjournal
  unfold bare?
  rw [call?_congr hcalls]

lemma refl (c : CallId) (x : Exchange) : Passes c x x := of_calls rfl rfl

lemma trans (hxy : Passes c x y) (hyz : Passes c y z) : Passes c x z := by
  obtain ⟨new, hnew, hchanged⟩ := hxy
  obtain ⟨newer, hnewer, hagain⟩ := hyz
  refine ⟨newer ++ new, by rw [hnewer, hnew, List.append_assoc], ?_⟩
  rw [List.filterMap_append]
  rcases hchanged with ⟨hsame, hnone⟩ | ⟨call, hcall, hlive, hdisposed, htold⟩
  · rw [hnone, List.append_nil]
    rw [hsame] at hagain
    exact hagain
  · rcases hagain with ⟨hsame, hnone⟩ | ⟨call', hcall', hlive', -⟩
    · rw [hnone, List.nil_append, hsame]
      exact Or.inr ⟨call, hcall, hlive, hdisposed, htold⟩
    · -- Nobody disposes a handle for the second time.
      rw [hdisposed] at hcall'
      cases hcall'
      have htwice : call.disposed.handle.isDisposed = true := call.handle.isDisposed_dispose
      rw [htwice] at hlive'
      cases hlive'

lemma note (x : Exchange) {entry : Entry} (hother : entry.reaction? c = none) :
    Passes c x (x.note entry) := by
  refine ⟨[entry], rfl, Or.inl ⟨rfl, ?_⟩⟩
  rw [List.filterMap_cons_none hother]
  rfl

lemma noteAny (x : Exchange) {noted : Option Entry}
    (hother : ∀ entry, noted = some entry → entry.reaction? c = none) :
    Passes c x (x.noteAny noted) := by
  cases noted with
  | none => exact refl c x
  | some entry => exact note x (hother entry rfl)

lemma modify_of_ne (x : Exchange) (hdc : d ≠ c) (f : Call → Call) : Passes c x (x.modify d f) := by
  refine of_bare ?_ rfl
  unfold bare?
  rw [call?_modify_of_ne x f hdc]

lemma setPresence (x : Exchange) (d : CallId) (presence : Presence) :
    Passes c x (x.setPresence d presence) :=
  of_bare (bare?_setPresence x d presence) rfl

lemma tell_of_ne (x : Exchange) (hdc : d ≠ c) (notice : Notice) : Passes c x (x.tell d notice) := by
  cases hcall : x.call? d with
  | none =>
    rw [tell_of_unknown hcall]
    exact refl c x
  | some call =>
    obtain ⟨place, -, hjournal⟩ := journal_tell hcall notice
    refine ⟨[_], hjournal, Or.inl ⟨?_, ?_⟩⟩
    · unfold bare?
      rw [call?_tell]
    · have hother : Entry.reaction? c
          (.told d { notice with call := some call.plan.name } place) = none := by
        simp [Entry.reaction?, Entry.reaction, hdc]
      rw [List.filterMap_cons_none hother]
      rfl

lemma dispose (x : Exchange) (d : CallId) : Passes c x (x.dispose d).2 := by
  cases hcall : x.call? d with
  | none =>
    rw [dispose_of_unknown hcall]
    exact refl c x
  | some call =>
    cases hlive : call.handle.isDisposed with
    | true =>
      rw [dispose_of_isDisposed hcall hlive]
      exact refl c x
    | false =>
      by_cases hdc : d = c
      · subst hdc
        have hknown : (x.modify d ({ · with handle := call.handle.dispose.2 })).call? d =
            some call.disposed := by
          exact call?_modify_of_known hcall _
        obtain ⟨place, hplace, hjournal⟩ := journal_tell hknown { kind := .handleDisposed }
        rw [dispose_of_live hcall hlive]
        refine ⟨[_], hjournal, Or.inr ⟨call.bare, ?_, hlive, ?_, ?_⟩⟩
        · unfold bare?
          rw [hcall]
          rfl
        · unfold bare?
          rw [call?_tell, hknown]
          rfl
        · have hpublished : place.isSome = call.feed.isSome := by
            rw [← Option.isSome_map (f := Prod.fst), hplace]
            rfl
          rw [Call.tells_bare]
          simp [Entry.reaction?, Entry.reaction, Call.tells, hpublished, Call.disposed]
      · rw [dispose_of_live hcall hlive]
        exact (modify_of_ne x hdc _).trans (tell_of_ne _ hdc _)

lemma ring (x : Exchange) (alarm : Alarm) : Passes c x (x.ring alarm) :=
  (dispose x alarm.target).trans (of_calls rfl rfl)

lemma elapse (x : Exchange) (nanos : Nat) : Passes c x (x.elapse nanos) := by
  have hlater : Passes c x { x with clock := x.clock + nanos } := of_calls rfl rfl
  unfold Exchange.elapse
  dsimp only
  split
  · split
    · exact hlater.trans (ring _ _)
    · exact hlater
  · exact hlater

lemma wait (x : Exchange) (d : CallId) (delay : Duration) : Passes c x (x.wait d delay) := by
  have hlater (y : Exchange) (timer : Nat) : Passes c y { y with timer } := of_calls rfl rfl
  unfold Exchange.wait
  split
  · exact refl c x
  · dsimp only
    split
    · split
      · split
        · exact (hlater x _).trans (ring _ _)
        · exact ((hlater x _).trans (ring _ _)).trans (hlater _ _)
      · exact hlater x _
    · exact hlater x _

/-- Whatever is done to whom. -/
lemma perform (x : Exchange) (deed : Deed) (d : CallId) : Passes c x (x.perform deed d).2 := by
  rcases perform_cases x deed d with hsame | hdisposed | ⟨call, -, -, hdropped⟩
  · rw [hsame]
    exact refl c x
  · rw [hdisposed]
    exact dispose x d
  · rw [hdropped]
    exact ((setPresence x d .gone).trans (dispose _ d)).trans
      (of_bare (bare?_modify _ d fun _ => rfl) rfl)

lemma performFor (x : Exchange) (deed : Deed) (d : CallId) :
    Passes c x (x.performFor deed d).2 := by
  unfold Exchange.performFor
  split
  · exact perform x deed d
  · exact refl c x

lemma close (manner : Manner) (x : Exchange) (d : CallId) : Passes c x (manner.close x d) := by
  cases manner with
  | blocking => exact setPresence x d .here
  | asynchronous => exact (dispose x d).trans (of_bare (bare?_modify _ d fun _ => rfl) rfl)

section Others

variable (hdc : d ≠ c)
include hdc

lemma stepIntoBody (x : Exchange) (rest : Output → Course) :
    Passes c x (x.stepIntoBody d rest).2 := by
  unfold Exchange.stepIntoBody
  split
  · exact refl c x
  · refine (modify_of_ne x hdc _).trans (note _ ?_)
    simp [Entry.reaction?, Entry.reaction, hdc]

lemma stepIntoPredicate (x : Exchange) (fault : Fault) (rest : Bool → Course) :
    Passes c x (x.stepIntoPredicate d fault rest).2 := by
  unfold Exchange.stepIntoPredicate
  split
  · exact refl c x
  · dsimp only
    split
    · exact refl c x
    · exact modify_of_ne x hdc _

lemma stepIntoCallback (x : Exchange) (verdict : Verdict) (rest : Course) :
    Passes c x (x.stepIntoCallback d verdict rest).2 := by
  have hused (f : Call → Call) : Passes c x ((x.modify d f).note (.delivered d verdict)) := by
    refine (modify_of_ne x hdc f).trans (note _ ?_)
    simp [Entry.reaction?, Entry.reaction, hdc]
  unfold Exchange.stepIntoCallback
  split
  · split
    · exact refl c x
    · exact hused _
  · split
    · exact refl c x
    · exact hused _
  · exact refl c x

/-- A step in the run of another call. -/
theorem stepRun (x : Exchange) (course : Course) : Passes c x (x.stepRun d course).2 := by
  cases course with
  | finished | panics | askDisposed | readClock => exact refl c x
  | start next =>
    show Passes c x (x.start d).2
    unfold Exchange.start
    split
    · exact refl c x
    · exact modify_of_ne x hdc _
  | report notice next => exact tell_of_ne x hdc notice
  | invoke next => exact stepIntoBody hdc x next
  | dispatch next =>
    rw [Exchange.stepRun]
    split
    · exact stepIntoBody hdc x _
    · exact refl c x
  | consult fault next => exact stepIntoPredicate hdc x fault next
  | sleep nanos next => exact elapse x nanos
  | await delay next =>
    refine (wait x d delay).trans (note _ ?_)
    simp [Entry.reaction?, Entry.reaction, hdc]
  | push verdict next =>
    have hpushed : Passes c x (x.pushVerdict d verdict).2 := by
      unfold Exchange.pushVerdict
      split
      · exact refl c x
      · split
        · exact modify_of_ne x hdc _
        · exact refl c x
        · exact refl c x
    rw [Exchange.stepRun]
    split
    case h_1 _ heq | h_2 _ heq =>
      rw [heq] at hpushed
      exact hpushed
  | pop next =>
    show Passes c x (x.popVerdict d).2
    unfold Exchange.popVerdict
    split
    · exact refl c x
    · exact modify_of_ne x hdc _
  | callback verdict next => exact stepIntoCallback hdc x verdict next

end Others

/-- What a call on its own makes of it: nothing, or that its handle is disposed. -/
theorem beat_cases (h : Passes c x y) {u : Solo} (hknown : x.bare? c = some u.call) :
    (x.struck c y = none ∧ x.turns c y ++ x.news c y = [] ∧ y.bare? c = some u.call) ∨
      ∃ v, u.IsStruck (x.struck c y) (x.turns c y ++ x.news c y) v ∧ y.bare? c = some v.call := by
  obtain ⟨new, hjournal, hchanged⟩ := h
  have hnews : x.news c y = (new.filterMap (Entry.reaction? c)).reverse := by
    unfold news
    rw [since_of_journal hjournal, List.filterMap_reverse]
  obtain ⟨call, hcall, hbare⟩ := Option.map_eq_some_iff.mp hknown
  rcases hchanged with ⟨hsame, hnone⟩ | ⟨former, hformer, hlive, hdisposed, htold⟩
  · obtain ⟨after, hafter, hbare'⟩ := Option.map_eq_some_iff.mp (hsame.trans hknown)
    have hhandle : after.handle = call.handle :=
      (Call.handle_of_bare hbare').trans (Call.handle_of_bare hbare).symm
    refine Or.inl ⟨?_, ?_, hsame.trans hknown⟩
    · unfold struck isDisposed
      rw [hcall, hafter, Option.any_some, Option.any_some, hhandle]
      cases call.handle.isDisposed <;> rfl
    · unfold turns
      rw [hnews, hnone, hcall, hafter]
      dsimp only
      rw [hhandle, if_pos rfl]
      rfl
  · rw [hknown] at hformer
    cases hformer
    obtain ⟨after, hafter, hbare'⟩ := Option.map_eq_some_iff.mp hdisposed
    have hbefore : call.handle = u.call.handle := Call.handle_of_bare hbare
    have hhandle : after.handle = u.call.handle.dispose.2 := Call.handle_of_bare hbare'
    have hstate : u.call.handle.dispose.2.state = .disposed :=
      of_decide_eq_true u.call.handle.isDisposed_dispose
    refine Or.inr ⟨{ u with call := u.call.disposed }, ⟨hlive, ?_, ?_, rfl⟩, hdisposed⟩
    · unfold struck isDisposed
      rw [hcall, hafter, Option.any_some, Option.any_some, hbefore, hhandle, hlive,
        Handle.isDisposed_dispose]
      rfl
    · have hturned : u.call.handle.state ≠ .disposed := of_decide_eq_false hlive
      unfold turns
      rw [hnews, htold, hcall, hafter]
      dsimp only
      rw [hbefore, hhandle, hstate, if_neg hturned]
      rfl

/-- The same, if the call on its own is in a pause. -/
lemma disturbed (h : Passes c x y) {call : Call} (hknown : x.bare? c = some call) :
    x.turns c y ++ x.news c y = (call.disturbed (x.struck c y).isSome).1 ∧
      y.bare? c = some (call.disturbed (x.struck c y).isSome).2 := by
  rcases beat_cases h (u := { call }) hknown with ⟨hfelt, hdid, hafter⟩ | ⟨v, hstruck, hafter⟩
  · rw [hfelt]
    exact ⟨hdid, hafter⟩
  · rw [hstruck.felt, hstruck.did, hafter, hstruck.after]
    exact ⟨rfl, rfl⟩

/-- The call on its own has the same history, and goes on with what it was at. -/
theorem exists_path (h : Passes c x y) {u : Solo} (hknown : x.bare? c = some u.call)
    (hidle : u.IsIdle) :
    ∃ v, u.Path (x.beat c y) v ∧ y.bare? c = some v.call ∧ v.stage = u.stage := by
  unfold Exchange.beat
  rcases h.beat_cases hknown with ⟨hfelt, hdid, hafter⟩ | ⟨v, hstruck, hafter⟩
  · rw [hfelt, hdid]
    exact ⟨u, .nil u, hafter, rfl⟩
  · refine ⟨v, .of_struck hidle hstruck, hafter, ?_⟩
    rw [hstruck.after]

end Passes

end Exchange

end Redial
