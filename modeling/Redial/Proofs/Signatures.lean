import Redial.Proofs.Chronicles
import Redial.Proofs.Publications

/-!
# Signatures

Whatever happens on an exchange, each call keeps its plan and its feed, and every event that a call
tells of bears the name of the call and goes to its feed. It makes no difference who has the call
tell of the event: its own run, the run of another call, or somebody who disposes its handle.
-/

namespace Redial

open StateTransition Scene

/-- The event bears the name of the call and went to its feed, or to none if the call has none. -/
def Telling.IsSignedBy (t : Telling) (call : Call) : Prop :=
  t.notice.call = some call.plan.name ∧ t.place.map Prod.fst = call.feed

namespace Exchange

/-- On the way from `x` to `y` no call is lost or changes its plan or its feed. -/
def KeepsCalls (x y : Exchange) : Prop :=
  ∀ c call, x.call? c = some call →
    ∃ after, y.call? c = some after ∧ after.plan = call.plan ∧ after.feed = call.feed

/-- Besides, all that is told is signed by the call that tells of it. -/
structure Signs (x y : Exchange) : Prop where
  calls : x.KeepsCalls y
  tellings : ∃ new, y.tellings = x.tellings ++ new ∧
    ∀ t ∈ new, ∃ call, y.call? t.call = some call ∧ t.IsSignedBy call

variable {x y z : Exchange} {c : CallId} {receipts : List Receipt}

lemma KeepsCalls.isSignedBy (h : x.KeepsCalls y) {t : Telling}
    (ht : ∃ call, x.call? t.call = some call ∧ t.IsSignedBy call) :
    ∃ call, y.call? t.call = some call ∧ t.IsSignedBy call := by
  obtain ⟨call, hcall, hname, hplace⟩ := ht
  obtain ⟨after, hafter, hplan, hfeed⟩ := h _ call hcall
  exact ⟨after, hafter, by rw [hplan, hname], by rw [hfeed, hplace]⟩

lemma KeepsCalls.trans (h : x.KeepsCalls y) (h' : y.KeepsCalls z) : x.KeepsCalls z := by
  intro c call hcall
  obtain ⟨between, hbetween, hplan, hfeed⟩ := h c call hcall
  obtain ⟨after, hafter, hplan', hfeed'⟩ := h' c between hbetween
  exact ⟨after, hafter, hplan'.trans hplan, hfeed'.trans hfeed⟩

namespace Signs

lemma trans (h : x.Signs y) (h' : y.Signs z) : x.Signs z := by
  obtain ⟨hcalls, first, hfirst, hsigned⟩ := h
  obtain ⟨hcalls', rest, hrest, hsigned'⟩ := h'
  refine ⟨hcalls.trans hcalls', first ++ rest, by rw [hrest, hfirst, List.append_assoc], ?_⟩
  intro t ht
  rcases List.mem_append.mp ht with ht | ht
  · exact hcalls'.isSignedBy (hsigned t ht)
  · exact hsigned' t ht

/-- Nothing was told. -/
lemma of_calls (hcalls : x.KeepsCalls y) (htellings : y.tellings = x.tellings) : x.Signs y :=
  ⟨hcalls, [], htellings.trans (List.append_nil _).symm, nofun⟩

lemma of_same (hcalls : y.calls = x.calls) (htellings : y.tellings = x.tellings) : x.Signs y :=
  of_calls (fun c call hcall => ⟨call, (call?_congr hcalls c).trans hcall, rfl, rfl⟩) htellings

lemma modify {f : Call → Call}
    (hf : ∀ call, x.call? c = some call → (f call).plan = call.plan ∧ (f call).feed = call.feed) :
    x.Signs (x.modify c f) := by
  refine of_calls (fun d call hcall => ?_) rfl
  rw [call?_modify, hcall]
  by_cases hd : c = d
  · rw [if_pos hd]
    exact ⟨f call, rfl, hf call (hd ▸ hcall)⟩
  · rw [if_neg hd]
    exact ⟨call, rfl, rfl, rfl⟩

lemma note (x : Exchange) {entry : Entry} (hentry : entry.isTold = false) :
    x.Signs (x.note entry) := by
  refine of_same rfl ?_
  rw [tellings_note]
  cases entry with
  | told => cases hentry
  | _ => exact List.append_nil _

/-- A call signs what it tells of. -/
lemma tell (x : Exchange) (c : CallId) (notice : Notice) : x.Signs (x.tell c notice) := by
  cases hcall : x.call? c with
  | none =>
    rw [tell_of_unknown hcall]
    exact of_same rfl rfl
  | some call =>
    obtain ⟨place, hplace, hjournal⟩ := journal_tell hcall notice
    have htold : (x.tell c notice).tellings =
        x.tellings ++ [⟨c, { notice with call := some call.plan.name }, place⟩] := by
      unfold Exchange.tellings
      rw [hjournal, List.reverse_cons, List.filterMap_append]
      rfl
    refine ⟨fun d call hcall => ⟨call, (call?_tell ..).trans hcall, rfl, rfl⟩, _, htold, ?_⟩
    intro t ht
    rw [List.mem_singleton.mp ht]
    exact ⟨call, (call?_tell ..).trans hcall, rfl, hplace⟩

lemma dispose (x : Exchange) (c : CallId) : x.Signs (x.dispose c).2 := by
  have hchanged (handle : Handle) : x.Signs (x.modify c ({ · with handle })) :=
    modify fun _ _ => ⟨rfl, rfl⟩
  rw [Exchange.dispose_eq_tell]
  split
  · exact of_same rfl rfl
  · dsimp only
    split
    · exact (hchanged _).trans (tell _ c _)
    · exact hchanged _

lemma setPresence (x : Exchange) (c : CallId) (presence : Presence) :
    x.Signs (x.setPresence c presence) :=
  modify fun _ _ => ⟨rfl, rfl⟩

lemma release (x : Exchange) (c : CallId) : x.Signs (x.release c) :=
  (dispose x c).trans (modify fun _ _ => ⟨rfl, rfl⟩)

lemma perform (x : Exchange) (deed : Deed) (c : CallId) : x.Signs (x.perform deed c).2 := by
  rcases perform_cases x deed c with hsame | hdisposed | ⟨_, -, -, hdropped⟩
  · rw [hsame]
    exact of_same rfl rfl
  · rw [hdisposed]
    exact dispose x c
  · rw [hdropped]
    exact (setPresence x c .gone).trans (release _ c)

lemma isCarried : IsCarried (fun _ => True) (fun _ => True) Signs where
  same hcalls hjournal := of_same hcalls (by unfold Exchange.tellings; rw [hjournal])
  trans := trans
  note x _ hentry := note x hentry
  tell x c notice _ _ := tell x c notice
  start x c _ := by
    unfold Exchange.start
    split
    · exact of_same rfl rfl
    · exact modify fun _ _ => ⟨rfl, rfl⟩
  change _ _ _ _ hf := modify fun call hcall => ⟨(hf call hcall).plan, (hf call hcall).feed⟩
  perform := perform

lemma step {s t : Scene} (hstep : s.step = some t) : s.exchange.Signs t.exchange := by
  rcases step_cases isCarried trivial (fun _ _ _ _ => trivial) hstep with
    ⟨-, -, hsigns⟩ | ⟨target, plan, asker, -, -, rfl⟩ | ⟨c, how, asker, askers, -, -, rfl⟩
  · exact hsigns
  · exact setPresence _ target .busy
  · unfold Asker.resume
    split
    · exact setPresence _ _ _
    · exact (setPresence _ _ _).trans (note _ rfl)

lemma happens (h : x.Happens receipts y) : x.Signs y := by
  cases h with
  | step hstep => exact step hstep
  | deed _ deed c => exact perform x deed c
  | release _ c => exact release x c
  | setPresence _ c presence => exact setPresence x c presence
  | setTimes | openFeed | subscribe | unsubscribe | read => exact of_same rfl rfl
  | addCall _ entry =>
    refine of_calls (fun c call hcall => ⟨call, ?_, rfl, rfl⟩) rfl
    have hlt : c < x.calls.length :=
      (List.getElem?_eq_some_iff.mp (Option.join_eq_some_iff.mp hcall)).1
    exact (congrArg Option.join (List.getElem?_append_left hlt)).trans hcall

/-- All that happens is signed. -/
theorem chronicle (h : x.Chronicle receipts y) : x.Signs y := by
  induction h with
  | nil => exact of_same rfl rfl
  | snoc _ hlast ih => exact ih.trans (happens hlast)

end Signs

/-- Every event that was told of on an exchange is signed. -/
theorem isSignedBy_of_chronicle {capacities : List Nat} {first : Nat}
    (h : Chronicle (.withFeeds capacities first) receipts x) :
    ∀ t ∈ x.tellings, ∃ call, x.call? t.call = some call ∧ t.IsSignedBy call := by
  obtain ⟨-, new, hnew, hsigned⟩ := Signs.chronicle h
  rw [hnew]
  exact hsigned

end Exchange

end Redial
