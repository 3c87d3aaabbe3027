import Redial.Proofs.EventGrammar
import Redial.Proofs.NestedRuns

/-!
# Runs are races

What an exchange carries out for a call is one of the races of this call. The steps of the run are
those of its course, and whatever disposes the handle in the meantime, be it user code, a nested run
or an alarm, is a step of another thread in between. So what holds of all races holds of all that
the journal tells of a run.
-/

namespace Redial

/-- What a step of a run does where others can see it. -/
def Stride.act? : Stride → Option Act
  | .told notice =>
    if notice.kind = .handleDisposed then none else some (.event (notice.kind, notice.attempt))
  | .bodyBegan => some .body
  | .callbackBegan verdict => some (.callback verdict)
  | _ => none

/-- The acts of some steps. -/
def actsOf (strides : List Stride) : List Act := strides.filterMap Stride.act?

lemma actsOf_cons (stride : Stride) (strides : List Stride) :
    actsOf (stride :: strides) = stride.act?.toList ++ actsOf strides := by
  unfold actsOf
  cases hact : stride.act? with
  | none => rw [List.filterMap_cons_none hact]; rfl
  | some act => rw [List.filterMap_cons_some hact]; rfl

/-- Other threads act on their own account. -/
lemma actsOf_others (n i : Nat) (strides : List Stride) :
    actsOf (List.replicate n (.other i) ++ strides) = actsOf strides := by
  induction n with
  | zero => rfl
  | succ n ih => exact ih

/-- The heading of an event among the acts. -/
def Act.heading? : Act → Option Heading
  | .event heading => some heading
  | _ => none

lemma heading?_actsOf {strides : List Stride}
    (h : ∀ heading ∈ headings strides, heading.1 ≠ .handleDisposed) :
    (actsOf strides).filterMap Act.heading? = headings strides := by
  induction strides with
  | nil => rfl
  | cons stride strides ih =>
    have hstride : stride.act?.bind Act.heading? = stride.heading? := by
      cases stride with
      | told notice =>
        have hkind : notice.kind ≠ .handleDisposed :=
          h (notice.kind, notice.attempt) (by simp [headings, Stride.heading?])
        simp [Stride.act?, Stride.heading?, Act.heading?, hkind]
      | _ => rfl
    have hrest := ih fun heading hmem => h heading (by
      unfold headings
      rw [List.filterMap_cons]
      split
      · exact hmem
      · exact List.mem_cons_of_mem _ hmem)
    rw [actsOf_cons, List.filterMap_append, hrest]
    unfold headings
    rw [List.filterMap_cons, ← hstride]
    cases stride.act? with
    | none => rfl
    | some act => cases act <;> rfl

lemma EventKind.IsTrouble.ne_handleDisposed {kind : EventKind} (h : kind.IsTrouble) :
    kind ≠ handleDisposed := by
  rcases h with rfl | rfl <;> simp

lemma Closing.ne_handleDisposed {kinds : List EventKind} (h : Closing kinds) :
    ∀ kind ∈ kinds, kind ≠ .handleDisposed := by
  cases h with
  | succeeded | unsuccessful | failed | suppressed => decide
  | suppressedAfter htrouble => simp [htrouble.ne_handleDisposed]
  | suppressedRetry htrouble => simp [htrouble.ne_handleDisposed]

/-- No run tells that its handle is disposed; this is up to whoever disposes it. -/
lemma Onward.ne_handleDisposed {most n : Nat} {l : List Heading} (h : Onward most n l) :
    ∀ heading ∈ l, heading.1 ≠ .handleDisposed := by
  induction h with
  | suppressed n => simp
  | closing hn hkinds =>
    intro heading hmem
    obtain ⟨kind, hkind, rfl⟩ := List.mem_map.mp hmem
    exact hkinds.ne_handleDisposed kind hkind
  | retried hn htrouble _ ih => simpa [round, htrouble.ne_handleDisposed] using ih

lemma Course.tidy_course (plan : Plan) (manner : Manner) : (plan.course manner).Tidy 0 := by
  cases manner with
  | blocking => exact tidy_blocking plan
  | asynchronous => exact tidy_async plan

namespace SharedHandle

variable {s : SharedHandle} {past rest : List HandleUse} {use : HandleUse}

lemma uses_at (h : s.uses = past ++ use :: rest) : s.uses[past.length]? = some use := by
  rw [h, List.getElem?_append_right (Nat.le_refl _), Nat.sub_self]
  rfl

lemma uses_update (h : s.uses = past ++ use :: rest) (next : HandleUse) :
    (s.update past.length next).uses = past ++ next :: rest := by
  unfold update
  rw [h, List.set_append_right _ _ (Nat.le_refl _), Nat.sub_self]
  rfl

/-- A thread that comes too late is through with its disposal after one step. -/
lemma step_of_disposed (h : s.uses = past ++ .disposing :: rest)
    (hdisposed : s.handle.isDisposed = true) : ∃ t, s.step past.length = some t ∧
      t.handle = s.handle.dispose.2 ∧ t.uses = past ++ .disposed false :: rest := by
  have hstate : s.handle.state = .disposed := of_decide_eq_true hdisposed
  let t : SharedHandle := { s with handle := { s.handle with state := .disposed } }
  refine ⟨t.update past.length (.disposed false), ?_, ?_, uses_update h _⟩
  · unfold step
    rw [uses_at h]
    simp only [Handle.swap, hstate]
    rfl
  · simp only [Handle.dispose, Handle.swap, hstate]
    rfl

/-- The first thread swaps, gives the signal and announces the end. -/
lemma steps_of_live (h : s.uses = past ++ .disposing :: rest)
    (hlive : s.handle.isDisposed = false) : ∃ t u v, s.step past.length = some t ∧
      t.step past.length = some u ∧ u.step past.length = some v ∧
      v.handle = s.handle.dispose.2 ∧ v.uses = past ++ .disposed true :: rest := by
  let t := { s with handle := { s.handle with state := .disposed } }.update past.length .owesSignal
  have ht : t.uses = past ++ .owesSignal :: rest := uses_update h _
  let u := { t with handle := t.handle.signal, signals := past.length :: t.signals }.update past.length
    .owesAnnouncement
  have hu : u.uses = past ++ .owesAnnouncement :: rest := uses_update ht _
  let v := { u with announcements := past.length :: u.announcements }.update past.length (.disposed true)
  refine ⟨t, u, v, ?_, ?_, ?_, ?_, uses_update hu _⟩
  · unfold step
    rw [uses_at h]
    cases hstate : s.handle.state with
    | disposed => simp [Handle.isDisposed, hstate] at hlive
    | idle | running =>
      simp only [Handle.swap, hstate]
      rfl
  · unfold step
    rw [uses_at ht]
  · unfold step
    rw [uses_at hu]
  · cases hstate : s.handle.state with
    | disposed => simp [Handle.isDisposed, hstate] at hlive
    | idle | running =>
      simp only [Handle.dispose, Handle.swap, hstate]
      rfl

end SharedHandle

namespace Race

lemma follow_other {e : Surroundings} {i : Nat} {shared : SharedHandle}
    (h : e.shared.step i = some shared) (s : Standing) (rest : List Stride) :
    follow ⟨e, s⟩ (.other i :: rest) = follow ⟨{ e with shared }, s⟩ rest := by
  have hstep : step ⟨e, s⟩ (.other i) =
      (e.shared.step i).bind fun shared => some ⟨{ e with shared }, s⟩ := rfl
  rw [follow_cons, hstep, h]
  rfl

lemma step_own {e f : Surroundings} {s t : Standing} {stride : Stride} (hown : stride.isOwn = true)
    (hafter : s.after? stride = some t) (hmeet : e.meet stride = some f) :
    step ⟨e, s⟩ stride = some ⟨f, t⟩ := by
  unfold step
  split
  case h_1 => cases hown
  case h_2 =>
    dsimp only
    rw [hafter, hmeet]
    rfl

/-- A thread that is about to dispose the handle does so, one step after the other. -/
lemma exists_disposal {e : Surroundings} {past rest : List HandleUse}
    (h : e.shared.uses = past ++ .disposing :: rest) :
    ∃ n shared first, shared.handle = e.shared.handle.dispose.2 ∧
      shared.uses = past ++ .disposed first :: rest ∧
      ∀ s, follow ⟨e, s⟩ (List.replicate n (.other past.length)) = some ⟨{ e with shared }, s⟩ := by
  cases hdisposed : e.shared.handle.isDisposed with
  | true =>
    obtain ⟨t, ht, hhandle, huses⟩ := SharedHandle.step_of_disposed h hdisposed
    refine ⟨1, t, false, hhandle, huses, fun s => ?_⟩
    rw [List.replicate_one, follow_other ht]
    rfl
  | false =>
    obtain ⟨t, u, v, ht, hu, hv, hhandle, huses⟩ := SharedHandle.steps_of_live h hdisposed
    refine ⟨3, v, true, hhandle, huses, fun s => ?_⟩
    rw [List.replicate_succ, follow_other ht, List.replicate_succ, follow_other hu,
      List.replicate_succ, follow_other hv]
    rfl

end Race

namespace Exchange

/-- The surroundings of a race are what the exchange knows of call `c`, and `k` more threads are
about to dispose the handle. -/
structure Mirrors (x : Exchange) (c : CallId) (k : Nat) (e : Surroundings) : Prop where
  call : ∃ call, x.call? c = some call ∧ e.shared.handle = call.handle ∧ e.outbox = call.outbox ∧
    e.onSuccess = call.onSuccess.isSome ∧ e.onFailure = call.onFailure.isSome
  threads : ∃ past, e.shared.uses = past ++ List.replicate k .disposing

variable {x y z : Exchange} {c : CallId} {k n : Nat} {e : Surroundings} {s t : Standing}

lemma Mirrors.of_call? (h : x.Mirrors c k e) (hcall : y.call? c = x.call? c) : y.Mirrors c k e := by
  obtain ⟨call, hx, hsame⟩ := h.call
  exact ⟨⟨call, hcall.trans hx, hsame⟩, h.threads⟩

lemma mirrors_modify {call : Call} {f : Call → Call} (hcall : x.call? c = some call)
    (hhandle : e.shared.handle = (f call).handle) (houtbox : e.outbox = (f call).outbox)
    (hsuccess : e.onSuccess = (f call).onSuccess.isSome)
    (hfailure : e.onFailure = (f call).onFailure.isSome)
    (hthreads : ∃ past, e.shared.uses = past ++ List.replicate k .disposing) :
    (x.modify c f).Mirrors c k e := by
  refine ⟨⟨f call, ?_, hhandle, houtbox, hsuccess, hfailure⟩, hthreads⟩
  exact call?_modify_of_known hcall _

/-- From `x` to `y` call `c` goes the rest of a race that stands at `s`: for as many threads as it
takes, there are steps that lead to the end and to the same acts. -/
def Races (c : CallId) (s : Standing) (x y : Exchange) : Prop :=
  ∃ k, ∀ e, x.Mirrors c k e → ∃ strides r, Race.follow ⟨e, s⟩ strides = some r ∧ r.IsOver ∧
    y.acts c = x.acts c ++ actsOf strides ∧ y.Mirrors c 0 r.around

namespace Races

lemma finished (x : Exchange) (c : CallId) : Races c (.before .finished) x x := by
  refine ⟨0, fun e he => ⟨[], _, rfl, rfl, ?_, he⟩⟩
  exact (List.append_nil _).symm

/-- A step of the run that the exchange answers as the surroundings do. -/
lemma own (stride : Stride) (h : Races c t y z) (hown : stride.isOwn = true)
    (hafter : s.after? stride = some t)
    (hacts : y.acts c = x.acts c ++ stride.act?.toList)
    (hmeet : ∀ k e, x.Mirrors c k e → ∃ f, e.meet stride = some f ∧ y.Mirrors c k f) :
    Races c s x z := by
  obtain ⟨k, hraces⟩ := h
  refine ⟨k, fun e he => ?_⟩
  obtain ⟨f, hf, hmirrors⟩ := hmeet k e he
  obtain ⟨strides, r, hfollow, hover, hz, hr⟩ := hraces f hmirrors
  refine ⟨stride :: strides, r, ?_, hover, ?_, hr⟩
  · rw [Race.follow_cons, Race.step_own hown hafter hf]
    exact hfollow
  · rw [hz, hacts, List.append_assoc, actsOf_cons]

/-- A step of the run that changes nothing which the surroundings show. -/
lemma quietly (stride : Stride) (h : Races c t y z) (hown : stride.isOwn = true)
    (hafter : s.after? stride = some t)
    (hacts : y.acts c = x.acts c ++ stride.act?.toList) (hcall : y.call? c = x.call? c)
    (hmeet : ∀ k e, x.Mirrors c k e → e.meet stride = some e) : Races c s x z :=
  h.own stride hown hafter hacts fun k e he => ⟨e, hmeet k e he, he.of_call? hcall⟩

/-- What others do to the call is nothing, or it is what another thread does that disposes its
handle. -/
lemma calm (h : Races c s y z) (hcalm : Calm (· = c) x y) : Races c s x z := by
  obtain ⟨k, hraces⟩ := h
  have hacts := hcalm.acts c rfl
  rcases hcalm.call c rfl with hsame | hdisposed
  · refine ⟨k, fun e he => ?_⟩
    rw [← hacts]
    exact hraces e (he.of_call? hsame)
  · refine ⟨k + 1, fun e he => ?_⟩
    obtain ⟨call, hx, hhandle, houtbox, hsuccess, hfailure⟩ := he.call
    obtain ⟨past, huses⟩ := he.threads
    obtain ⟨n, shared, first, hshared, hleft, hfollow⟩ := Race.exists_disposal huses
    have hy : y.call? c = some call.disposed := by rw [hdisposed, hx]; rfl
    have hmirrors : y.Mirrors c k { e with shared } :=
      ⟨⟨call.disposed, hy, by rw [hshared, hhandle]; rfl, houtbox, hsuccess, hfailure⟩,
        past ++ [.disposed first], by rw [hleft, List.append_assoc]; rfl⟩
    obtain ⟨strides, r, hrest, hover, hz, hr⟩ := hraces _ hmirrors
    refine ⟨List.replicate n (.other past.length) ++ strides, r, ?_, hover, ?_, hr⟩
    · rw [Race.follow_append, hfollow]
      exact hrest
    · rw [hz, hacts, actsOf_others]

end Races

section Steps

variable {nesting : Nesting}

lemma races_play {α : Type} {script : Script α} {role : Role} {halt : Except Halt α}
    (hnesting : nesting.IsGentle (· = c)) (hquiet : x.Quiet (· = c) c 0)
    (hplay : x.play nesting role c script = (halt, y)) :
    y.Quiet (· = c) c 0 ∧ ∀ s z, Races c s y z → Races c s x z := by
  have hgentle := gentle_play hnesting hquiet role c script
  rw [hplay] at hgentle
  exact ⟨hgentle.quiet, fun s z h => h.calm hgentle.calm⟩

lemma races_start {next : Bool → Course} (hknown : (x.call? c).isSome)
    (h : Races c (.before (next (x.start c).1)) (x.start c).2 z) :
    Races c (.before (.start next)) x z := by
  obtain ⟨call, hcall⟩ := Option.isSome_iff_exists.mp hknown
  have hstart : x.start c =
      (call.handle.start.1, x.modify c ({ · with handle := call.handle.start.2 })) := by
    unfold start
    rw [hcall]
  rw [hstart] at h
  refine h.own (.started call.handle.start.1) rfl rfl (List.append_nil _).symm ?_
  intro k e he
  obtain ⟨former, hformer, hhandle, houtbox, hsuccess, hfailure⟩ := he.call
  cases hcall.symm.trans hformer
  refine ⟨{ e with shared := { e.shared with handle := call.handle.start.2 } }, ?_,
    mirrors_modify hcall rfl houtbox hsuccess hfailure he.threads⟩
  rw [← hhandle]
  exact if_pos rfl

lemma races_askDisposed {next : Bool → Course} (h : Races c (.before (next (x.isDisposed c))) x z) :
    Races c (.before (.askDisposed next)) x z := by
  refine h.quietly (.looked (x.isDisposed c)) rfl rfl (List.append_nil _).symm rfl ?_
  intro k e he
  obtain ⟨call, hcall, hhandle, -⟩ := he.call
  apply if_pos
  unfold Surroundings.isDisposed isDisposed
  rw [hcall, hhandle]
  rfl

lemma races_report {notice : Notice} {next : Course} (hknown : (x.call? c).isSome)
    (h : Races c (.before next) (x.tell c notice) z) :
    Races c (.before (.report notice next)) x z := by
  obtain ⟨call, hcall⟩ := Option.isSome_iff_exists.mp hknown
  refine h.quietly (.told notice) rfl (if_pos rfl) ?_ (call?_tell x c notice c)
    fun _ _ _ => rfl
  by_cases hkind : notice.kind = .handleDisposed
  · have hact : (Stride.told notice).act? = none := if_pos hkind
    rw [acts_tell_of_not (Or.inr hkind), hact]
    exact (List.append_nil _).symm
  · have hact : (Stride.told notice).act? = some _ := if_neg hkind
    rw [acts_tell_self hcall hkind, hact]
    rfl

/-- A change to the call that the surroundings do not show. -/
lemma Mirrors.modify (h : x.Mirrors c k e) {f : Call → Call}
    (hf : ∀ call, (f call).handle = call.handle ∧ (f call).outbox = call.outbox ∧
      (f call).onSuccess = call.onSuccess ∧ (f call).onFailure = call.onFailure) :
    (x.modify c f).Mirrors c k e := by
  obtain ⟨call, hcall, hsame⟩ := h.call
  obtain ⟨hhandle, houtbox, hsuccess, hfailure⟩ := hf call
  rw [← hhandle, ← houtbox, ← hsuccess, ← hfailure] at hsame
  exact mirrors_modify hcall hsame.1 hsame.2.1 hsame.2.2.1 hsame.2.2.2 h.threads

lemma races_invokeBody {next : Output → Course} {output : Output}
    (hs : s.after? .bodyBegan = some (.inBody next)) (hnesting : nesting.IsGentle (· = c))
    (hquiet : x.Quiet (· = c) c 0) (hinvoke : x.invokeBody nesting c = (.ok output, y)) :
    y.Quiet (· = c) c 0 ∧ ∀ z, Races c (.before (next output)) y z → Races c s x z := by
  obtain ⟨call, hcall, -⟩ := hquiet.away c rfl
  unfold invokeBody enter at hinvoke
  rw [hcall] at hinvoke
  let f (call' : Call) : Call := { call' with bodyCalls := call.bodyCalls + 1 }
  have hcounted : (x.modify c f).Quiet (· = c) c 0 := hquiet.modify c (fun _ => rfl) fun _ _ => rfl
  obtain ⟨hy, hplay⟩ := races_play hnesting (hcounted.note (.invoked c (call.bodyCalls + 1))) hinvoke
  refine ⟨hy, fun z hz => ?_⟩
  have hended : Races c (.inBody next) y z :=
    hz.quietly (.bodyEnded output) rfl rfl (List.append_nil _).symm rfl fun _ _ _ => rfl
  refine (hplay (.inBody next) z hended).own .bodyBegan rfl hs ?_ fun k e he => ⟨e, rfl, ?_⟩
  · have hact : Entry.act? c (.invoked c (call.bodyCalls + 1)) = some .body := if_pos rfl
    exact acts_note_of_some hact
  · exact (he.modify (f := f) fun _ => ⟨rfl, rfl, rfl, rfl⟩).of_call? rfl

lemma races_consult {fault : Fault} {next : Bool → Course} {again : Bool}
    (hnesting : nesting.IsGentle (· = c)) (hquiet : x.Quiet (· = c) c 0)
    (hconsult : x.consultPredicate nesting c fault = (.ok again, y)) :
    y.Quiet (· = c) c 0 ∧
      (Races c (.before (next again)) y z → Races c (.before (.consult fault next)) x z) := by
  obtain ⟨call, hcall, -⟩ := hquiet.away c rfl
  have henter {w : Exchange} (hacts : w.acts c = x.acts c)
      (hmirrors : ∀ k e, x.Mirrors c k e → w.Mirrors c k e)
      (hw : Races c (.inPredicate next) w z) : Races c (.before (.consult fault next)) x z :=
    hw.own (.predicateBegan fault) rfl (if_pos rfl) (hacts.trans (List.append_nil _).symm)
      fun k e he => ⟨e, rfl, hmirrors k e he⟩
  have hleave {w : Exchange} (hacts : y.acts c = w.acts c) (hcall : y.call? c = w.call? c)
      (hy : Races c (.before (next again)) y z) : Races c (.inPredicate next) w z :=
    hy.quietly (.predicateEnded again) rfl rfl (hacts.trans (List.append_nil _).symm) hcall
      fun _ _ _ => rfl
  unfold consultPredicate at hconsult
  rw [hcall] at hconsult
  dsimp only at hconsult
  cases hpredicate : call.plan.rule.predicate with
  | none =>
    rw [hpredicate] at hconsult
    cases hconsult
    exact ⟨hquiet, fun hy => henter rfl (fun _ _ he => he) (hleave rfl rfl hy)⟩
  | some predicate =>
    rw [hpredicate] at hconsult
    dsimp only at hconsult
    let f (call' : Call) : Call := { call' with predicateCalls := call.predicateCalls + 1 }
    have hcounted : (x.modify c f).Quiet (· = c) c 0 := hquiet.modify c (fun _ => rfl) fun _ _ => rfl
    split at hconsult
    case h_1 answer w hplay =>
      cases hconsult
      obtain ⟨hw, hplayed⟩ := races_play hnesting hcounted hplay
      refine ⟨hw.note _, fun hy => ?_⟩
      have hback := hleave (w := w) (acts_note_of_none rfl) rfl hy
      exact henter (w := x.modify c f) rfl (fun _ _ he => he.modify fun _ => ⟨rfl, rfl, rfl, rfl⟩)
        (hplayed (.inPredicate next) z hback)
    case h_2 => cases hconsult

lemma races_push {verdict : Verdict} {next : Except Delivery.Refusal Nat → Course}
    {answer : Except Delivery.Refusal Nat} (hpushed : x.pushVerdict c verdict = (.ok answer, y))
    (h : Races c (.before (next answer)) y z) : Races c (.before (.push verdict next)) x z := by
  unfold pushVerdict at hpushed
  split at hpushed
  case h_1 => cases hpushed
  case h_2 call hcall =>
    split at hpushed
    case h_1 outbox hpush =>
      cases hpushed
      refine h.own (.pushed verdict (.ok outbox.size)) rfl (if_pos rfl)
        (List.append_nil _).symm fun k e he => ?_
      obtain ⟨former, hformer, hhandle, houtbox, hsuccess, hfailure⟩ := he.call
      cases hcall.symm.trans hformer
      rw [← houtbox] at hpush
      exact ⟨{ e with outbox }, Surroundings.meet_accepted hpush,
        mirrors_modify hcall hhandle rfl hsuccess hfailure he.threads⟩
    case h_2 reason hpush =>
      cases hpushed
      refine h.quietly (.pushed verdict (.error reason)) rfl (if_pos rfl)
        (List.append_nil _).symm rfl fun k e he => ?_
      obtain ⟨former, hformer, -, houtbox, -⟩ := he.call
      cases hcall.symm.trans hformer
      rw [← houtbox] at hpush
      exact Surroundings.meet_refused hpush
    case h_3 => cases hpushed

lemma races_pop {next : Option Verdict → Course} (hknown : (x.call? c).isSome)
    (h : Races c (.before (next (x.popVerdict c).1)) (x.popVerdict c).2 z) :
    Races c (.before (.pop next)) x z := by
  obtain ⟨call, hcall⟩ := Option.isSome_iff_exists.mp hknown
  unfold popVerdict at h
  rw [hcall, Option.bind_some] at h
  cases hpop : call.outbox.pop with
  | none =>
    rw [hpop] at h
    refine h.quietly (.popped none) rfl rfl (List.append_nil _).symm rfl fun k e he => ?_
    obtain ⟨former, hformer, -, houtbox, -⟩ := he.call
    cases hcall.symm.trans hformer
    rw [← houtbox] at hpop
    exact Surroundings.meet_empty hpop
  | some popped =>
    obtain ⟨oldest, outbox⟩ := popped
    rw [hpop] at h
    refine h.own (.popped (some oldest)) rfl rfl (List.append_nil _).symm
      fun k e he => ?_
    obtain ⟨former, hformer, hhandle, houtbox, hsuccess, hfailure⟩ := he.call
    cases hcall.symm.trans hformer
    rw [← houtbox] at hpop
    exact ⟨{ e with outbox }, Surroundings.meet_popped hpop,
      mirrors_modify hcall hhandle rfl hsuccess hfailure he.threads⟩

lemma races_callbackMissing {verdict : Verdict} {next : Course}
    (hmissing : ∀ k e, x.Mirrors c k e → e.hasCallback verdict = false)
    (h : Races c (.before next) x z) : Races c (.before (.callback verdict next)) x z := by
  refine h.quietly (.callbackMissing verdict) rfl (if_pos rfl) (List.append_nil _).symm rfl
    fun k e he => if_neg ?_
  rw [hmissing k e he]
  exact Bool.false_ne_true

lemma races_callbackBegan {verdict : Verdict} {next : Course} {f : Call → Call}
    (hthere : ∀ k e, x.Mirrors c k e → e.hasCallback verdict = true ∧
      (x.modify c f).Mirrors c k (e.useCallback verdict))
    (h : Races c (.inCallback next) ((x.modify c f).note (.delivered c verdict)) z) :
    Races c (.before (.callback verdict next)) x z := by
  have hact : Entry.act? c (.delivered c verdict) = some (.callback verdict) := if_pos rfl
  exact h.own (.callbackBegan verdict) rfl (if_pos rfl) (acts_note_of_some hact)
    fun k e he => ⟨e.useCallback verdict, if_pos (hthere k e he).1, (hthere k e he).2.of_call? rfl⟩

/-- The callback for a verdict is invoked and returns, or there is none. -/
lemma races_callBack {verdict : Verdict} {next : Course} (hnesting : nesting.IsGentle (· = c))
    (hquiet : x.Quiet (· = c) c 0) (hcalled : x.callBack nesting c verdict = (.ok (), y)) :
    y.Quiet (· = c) c 0 ∧
      (Races c (.before next) y z → Races c (.before (.callback verdict next)) x z) := by
  obtain ⟨call, hcall, -⟩ := hquiet.away c rfl
  have hended (hy : Races c (.before next) y z) : Races c (.inCallback next) y z :=
    hy.quietly .callbackEnded rfl rfl (List.append_nil _).symm rfl fun _ _ _ => rfl
  unfold callBack enter at hcalled
  rw [hcall] at hcalled
  cases verdict with
  | success result =>
    dsimp only at hcalled
    cases hcallback : call.onSuccess with
    | none =>
      rw [hcallback] at hcalled
      cases hcalled
      refine ⟨hquiet, races_callbackMissing fun k e he => ?_⟩
      obtain ⟨former, hformer, -, -, hsuccess, -⟩ := he.call
      cases hcall.symm.trans hformer
      rw [Surroundings.hasCallback, hsuccess, hcallback]
      rfl
    | some callback =>
      rw [hcallback] at hcalled
      let f (call' : Call) : Call := { call' with onSuccess := none }
      have hused : (x.modify c f).Quiet (· = c) c 0 := hquiet.modify c (fun _ => rfl) fun _ _ => rfl
      obtain ⟨hy, hplay⟩ := races_play hnesting (hused.note (.delivered c (.success result))) hcalled
      refine ⟨hy, fun hz => races_callbackBegan (f := f) (fun k e he => ?_) (hplay _ z (hended hz))⟩
      obtain ⟨former, hformer, hhandle, houtbox, hsuccess, hfailure⟩ := he.call
      cases hcall.symm.trans hformer
      exact ⟨by rw [Surroundings.hasCallback, hsuccess, hcallback]; rfl,
        mirrors_modify hcall hhandle houtbox rfl hfailure he.threads⟩
  | failure fault =>
    dsimp only at hcalled
    cases hcallback : call.onFailure with
    | none =>
      rw [hcallback] at hcalled
      cases hcalled
      refine ⟨hquiet, races_callbackMissing fun k e he => ?_⟩
      obtain ⟨former, hformer, -, -, -, hfailure⟩ := he.call
      cases hcall.symm.trans hformer
      rw [Surroundings.hasCallback, hfailure, hcallback]
      rfl
    | some callback =>
      rw [hcallback] at hcalled
      let f (call' : Call) : Call := { call' with onFailure := none }
      have hused : (x.modify c f).Quiet (· = c) c 0 := hquiet.modify c (fun _ => rfl) fun _ _ => rfl
      obtain ⟨hy, hplay⟩ := races_play hnesting (hused.note (.delivered c (.failure fault))) hcalled
      refine ⟨hy, fun hz => races_callbackBegan (f := f) (fun k e he => ?_) (hplay _ z (hended hz))⟩
      obtain ⟨former, hformer, hhandle, houtbox, hsuccess, hfailure⟩ := he.call
      cases hcall.symm.trans hformer
      exact ⟨by rw [Surroundings.hasCallback, hfailure, hcallback]; rfl,
        mirrors_modify hcall hhandle houtbox hsuccess rfl he.threads⟩

/-- What an exchange carries out for a call is a race. -/
theorem races_follow (hnesting : nesting.IsGentle (· = c)) {course : Course} (htidy : course.Tidy n)
    (hquiet : x.Quiet (· = c) c n) (hend : (follow nesting c course x).1 = .ok ()) :
    Races c (.before course) x (follow nesting c course x).2 := by
  -- Each step of the course is one step of the race. User code comes between two of them, and all
  -- it can do to the call is left to the other threads.
  induction course generalizing n x with
  | finished => exact .finished x c
  | panics text => cases hend
  | start next ih => exact races_start (hquiet.known rfl) (ih _ (htidy _) hquiet.start hend)
  | askDisposed next ih => exact races_askDisposed (ih _ (htidy _) hquiet hend)
  | report notice next ih =>
    exact races_report (hquiet.known rfl) (ih htidy (hquiet.tell c notice) hend)
  | invoke next ih =>
    obtain ⟨rfl, htidy⟩ := htidy
    rw [follow] at hend ⊢
    cases hinvoke : x.invokeBody nesting c with
    | mk output y =>
      rw [hinvoke] at hend
      cases output with
      | error halt => cases hend
      | ok output =>
        obtain ⟨hy, hraces⟩ := races_invokeBody (s := .before (.invoke next)) rfl hnesting hquiet hinvoke
        exact hraces _ (ih _ (htidy _) hy hend)
  | dispatch next ih =>
    obtain ⟨rfl, htidy⟩ := htidy
    rw [follow] at hend ⊢
    cases hstaffed : x.staffed with
    | false =>
      rw [hstaffed] at hend
      exact (ih none (htidy none) hquiet hend).quietly .bodyRefused rfl rfl
        (List.append_nil _).symm rfl fun _ _ _ => rfl
    | true =>
      rw [hstaffed] at hend
      cases hinvoke : x.invokeBody nesting c with
      | mk output y =>
        rw [hinvoke] at hend
        cases output with
        | error halt => cases hend
        | ok output =>
          obtain ⟨hy, hraces⟩ := races_invokeBody (s := .before (.dispatch next)) rfl hnesting hquiet
            hinvoke
          exact hraces _ (ih _ (htidy _) hy hend)
  | consult fault next ih =>
    obtain ⟨rfl, htidy⟩ := htidy
    rw [follow] at hend ⊢
    cases hconsult : x.consultPredicate nesting c fault with
    | mk answer y =>
      rw [hconsult] at hend
      cases answer with
      | error halt => cases hend
      | ok again =>
        obtain ⟨hy, hraces⟩ := races_consult hnesting hquiet hconsult
        exact hraces (ih _ (htidy _) hy hend)
  | readClock next ih =>
    exact (ih _ (htidy _) hquiet hend).quietly (.clockRead x.clock) rfl rfl
      (List.append_nil _).symm rfl fun _ _ _ => rfl
  | sleep nanos next ih =>
    have hslept := (ih htidy (hquiet.elapse nanos) hend).calm (.elapse x nanos)
    exact hslept.quietly (.slept nanos) rfl (if_pos rfl) (List.append_nil _).symm rfl
      fun _ _ _ => rfl
  | await delay next ih =>
    obtain ⟨hwaited, hcalm⟩ := wait_calm hquiet c delay
    have hnoted := (ih htidy (hwaited.note (.waited c delay)) hend).calm
      (hcalm.trans (.note fun _ _ => rfl))
    exact hnoted.quietly (.waited delay) rfl (if_pos rfl) (List.append_nil _).symm rfl
      fun _ _ _ => rfl
  | push verdict next ih =>
    obtain ⟨rfl, haccepted, hrefused⟩ := htidy
    have hpush := hquiet.pushVerdict (hquiet.known rfl) verdict
    rw [follow] at hend ⊢
    cases hpushed : x.pushVerdict c verdict with
    | mk answer y =>
      rw [hpushed] at hend hpush
      rcases hpush with ⟨rfl, hy⟩ | ⟨reason, rfl, hy⟩
      · exact races_push hpushed (ih _ haccepted hy hend)
      · exact races_push hpushed (ih _ (hrefused reason) hy hend)
  | pop next ih =>
    apply races_pop (hquiet.known rfl)
    rw [follow] at hend ⊢
    rcases hquiet.popVerdict (hquiet.known rfl) with ⟨rfl, hnone, hy⟩ | ⟨m, verdict, rfl, hsome, hy⟩
    · exact ih _ (by rw [hnone]; exact htidy) hy hend
    · exact ih _ (by rw [hsome]; exact htidy verdict) hy hend
  | callback verdict next ih =>
    obtain ⟨rfl, htidy⟩ := htidy
    rw [follow] at hend ⊢
    cases hcalled : x.callBack nesting c verdict with
    | mk ended y =>
      rw [hcalled] at hend
      cases ended with
      | error halt => cases hend
      | ok =>
        obtain ⟨hy, hraces⟩ := races_callBack hnesting hquiet hcalled
        exact hraces (ih htidy hy hend)

end Steps

variable {plan : Plan} {feed : Option FeedId} {listed : Bool} {handle : Handle}
  {presence : Presence} {nesting : Nesting}

/-- The race of a call that has not run yet, from the start of its handle on. -/
theorem exists_race (manner : Manner) (hnesting : nesting.IsGentle (· = c)) (hquiet : x.Quiet (· = c) c 0)
    (hcall : x.call? c = some { plan.toCall feed listed with handle, presence })
    (hend : (follow nesting c (plan.course manner) x).1 = .ok ()) :
    ∃ k rest r, (Race.begin plan manner { handle, uses := List.replicate k .disposing }).follow
        (.started handle.start.1 :: rest) = some r ∧ r.IsOver ∧
      (follow nesting c (plan.course manner) x).2.acts c = x.acts c ++ actsOf rest := by
  obtain ⟨next, -, -, -, hcourse, -⟩ := Race.start_of_course plan manner
  have htidy := Course.tidy_course plan manner
  rw [hcourse] at htidy hend ⊢
  have hstart : x.start c =
      (handle.start.1, x.modify c ({ · with handle := handle.start.2 })) := by
    unfold start
    rw [hcall]
  have hquietly := hquiet.start
  rw [follow, hstart] at hend ⊢
  rw [hstart] at hquietly
  obtain ⟨k, hraces⟩ := races_follow hnesting (htidy handle.start.1) hquietly hend
  let begun := Race.begin plan manner { handle, uses := List.replicate k .disposing }
  let e := { begun.around with shared := { begun.around.shared with handle := handle.start.2 } }
  have hmirrors : (x.modify c ({ · with handle := handle.start.2 })).Mirrors c k e :=
    mirrors_modify hcall rfl rfl rfl rfl ⟨[], rfl⟩
  obtain ⟨rest, r, hfollow, hover, hacts, -⟩ := hraces e hmirrors
  refine ⟨k, rest, r, ?_, hover, hacts⟩
  have hbegun : begun = ⟨begun.around, .before (.start next)⟩ := by rw [← hcourse]; rfl
  have hmeet : begun.around.meet (.started handle.start.1) = some e := if_pos rfl
  change begun.follow _ = _
  rw [hbegun, Race.follow_cons, Race.step_own rfl rfl hmeet]
  exact hfollow

/-- A blocking run is a race. -/
theorem exists_race_of_run (hsettled : x.Settled)
    (hcall : x.call? c = some { plan.toCall feed listed with handle })
    (hend : (x.run c).1 = .ended (.ok ())) :
    ∃ k rest r, (Race.begin plan .blocking { handle, uses := List.replicate k .disposing }).follow
        (.started handle.start.1 :: rest) = some r ∧ r.IsOver ∧
      (x.run c).2.acts c = x.acts c ++ actsOf rest := by
  have hrunnable : x.runnable c = .ok plan := by
    unfold runnable
    rw [hcall]
    rfl
  obtain ⟨depth, hrun⟩ := run_of_ok hrunnable
  dsimp only at hrun
  rw [hrun] at hend ⊢
  have hbusy : (x.setPresence c .busy).call? c =
      some { plan.toCall feed listed with handle, presence := .busy } := by
    exact call?_modify_of_known hcall _
  have hquiet : (x.setPresence c .busy).Quiet (· = c) c 0 :=
    hsettled.quiet_setPresence ⟨_, hcall⟩ (by decide)
  exact exists_race .blocking (isGentle_runWithin _ depth) hquiet hbusy (RunReply.ended.inj hend)

/-- An asynchronous run is a race. -/
theorem exists_race_of_runAsync (hsettled : x.Settled)
    (hcall : x.call? c = some { plan.toCall feed listed with handle })
    (hend : (x.runAsync c).1 = .ended (.ok ())) :
    ∃ k rest r, (Race.begin plan .asynchronous { handle, uses := List.replicate k .disposing }).follow
        (.started handle.start.1 :: rest) = some r ∧ r.IsOver ∧
      (x.runAsync c).2.acts c = x.acts c ++ actsOf rest := by
  have hrunnable : x.runnable c = .ok plan := by
    unfold runnable
    rw [hcall]
    rfl
  unfold runAsync at hend ⊢
  rw [hrunnable] at hend ⊢
  have hgone : (x.setPresence c .gone).call? c =
      some { plan.toCall feed listed with handle, presence := .gone } := by
    exact call?_modify_of_known hcall _
  have hquiet : (x.setPresence c .gone).Quiet (· = c) c 0 :=
    hsettled.quiet_setPresence ⟨_, hcall⟩ (by decide)
  obtain ⟨k, rest, r, hfollow, hover, hacts⟩ := exists_race .asynchronous
    (isGentle_runWithin _ _) hquiet hgone (RunReply.ended.inj hend)
  exact ⟨k, rest, r, hfollow, hover, (acts_dispose _ c c).trans hacts⟩

/-- The headings of the events that call `c` has told of in its runs. -/
def events (x : Exchange) (c : CallId) : List Heading := (x.acts c).filterMap Act.heading?

/-- What the journal tells of the events of a run that has started and come to its end: rounds of
attempts and the closing one, or the suppression alone. -/
theorem onward_of_run (hsettled : x.Settled)
    (hcall : x.call? c = some { plan.toCall feed listed with handle })
    (hidle : handle.state = .idle) (hend : (x.run c).1 = .ended (.ok ())) :
    ∃ l, Onward plan.limit.maxAttempts 0 l ∧ (x.run c).2.events c = x.events c ++ l := by
  obtain ⟨k, rest, r, hfollow, hover, hacts⟩ := exists_race_of_run hsettled hcall hend
  have hwon : handle.start.1 = true := handle.start_fst_eq_true_iff.mpr hidle
  rw [hwon] at hfollow
  have honward := Race.onward_of_follow plan .blocking _ hfollow hover List.mem_cons_self
  refine ⟨headings rest, honward, ?_⟩
  unfold events
  rw [hacts, List.filterMap_append]
  exact congrArg (x.events c ++ ·) (heading?_actsOf honward.ne_handleDisposed)

end Exchange

end Redial
