import Redial.Proofs.Acts

/-!
# Runs inside runs

User code of a call at work can run other calls. All that such a run can do to the calls at work is
to dispose their handles. It comes to an end or panics, but it is never stuck: whenever a verdict is
pushed, the outbox is empty.
-/

namespace Redial

namespace Course

/-- A course that finds `n` verdicts in its outbox has emptied it whenever it pushes a verdict,
calls user code or ends. -/
def Tidy : Course → Nat → Prop
  | finished, n | panics _, n => n = 0
  | start next, n | askDisposed next, n => ∀ answer, (next answer).Tidy n
  | report _ next, n | sleep _ next, n | await _ next, n => next.Tidy n
  | invoke next, n => n = 0 ∧ ∀ output, (next output).Tidy 0
  | dispatch next, n => n = 0 ∧ ∀ output, (next output).Tidy 0
  | consult _ next, n => n = 0 ∧ ∀ again, (next again).Tidy 0
  | readClock next, n => ∀ now, (next now).Tidy n
  | push _ next, n => n = 0 ∧ (next (.ok 1)).Tidy 1 ∧ ∀ reason, (next (.error reason)).Tidy 0
  | pop next, 0 => (next none).Tidy 0
  | pop next, n + 1 => ∀ verdict, (next (some verdict)).Tidy n
  | callback _ next, n => n = 0 ∧ next.Tidy 0

variable {plan : Plan} {next : Course}

lemma tidy_pauseUntil (h : next.Tidy 0) (deadline looks : Nat) :
    (pauseUntil deadline next looks).Tidy 0 := by
  induction looks with
  | zero => exact h
  | succ looks ih =>
    intro disposed
    cases disposed with
    | true => exact h
    | false =>
      intro now
      dsimp only
      split
      · exact h
      · exact ih

lemma tidy_pause (h : next.Tidy 0) (delay : Duration) : (pause delay next).Tidy 0 := by
  intro now
  dsimp only
  split
  · exact tidy_pauseUntil h _ _
  · rfl

lemma tidy_schedule {retry : Duration → Course} (h : ∀ delay, (retry delay).Tidy 0) (p : Progress) :
    (schedule plan p retry).Tidy 0 := by
  unfold schedule
  split
  · rfl
  · exact h _

lemma tidy_judgeFault {next : Bool → Course} (h : ∀ again, (next again).Tidy 0) (fault : Fault) :
    (judgeFault plan fault next).Tidy 0 := by
  unfold judgeFault
  split
  · exact h _
  · exact ⟨rfl, h⟩

lemma tidy_settle {retry : Progress → Duration → Course} {finish : Progress → Verdict → Course}
    (hretry : ∀ p delay, (retry p delay).Tidy 0) (hfinish : ∀ p verdict, (finish p verdict).Tidy 0)
    (p : Progress) (output : Output) : (settle plan p output retry finish).Tidy 0 := by
  cases output with
  | ok result =>
    unfold settle
    dsimp only
    split
    · exact hfinish _ _
    · rw [Tidy]
      split
      · exact tidy_schedule (hretry _) _
      · exact hfinish _ _
  | error fault =>
    refine tidy_judgeFault (fun again => ?_) fault
    split
    · exact tidy_schedule (hretry _) _
    · exact hfinish _ _

lemma tidy_deliver (p : Progress) (verdict : Verdict) : (deliver p verdict).Tidy 0 := by
  intro disposed
  cases disposed with
  | true => rfl
  | false =>
    refine ⟨rfl, fun oldest disposed => ?_, fun reason => rfl⟩
    cases disposed with
    | true => rfl
    | false => exact ⟨rfl, rfl⟩

lemma tidy_blockingAttempts (plan : Plan) (left : Nat) (p : Progress) :
    (blockingAttempts plan left p).Tidy 0 := by
  induction left generalizing p with
  | zero => rfl
  | succ left ih =>
    intro disposed
    cases disposed with
    | true => rfl
    | false => exact ⟨rfl, tidy_settle (fun q delay => tidy_pause (ih q) delay) tidy_deliver p.begin⟩

lemma tidy_asyncAttempts (plan : Plan) (left : Nat) (p : Progress) :
    (asyncAttempts plan left p).Tidy 0 := by
  induction left generalizing p with
  | zero => rfl
  | succ left ih =>
    intro disposed
    cases disposed with
    | true => rfl
    | false =>
      refine ⟨rfl, fun output => ?_⟩
      cases output with
      | none => rfl
      | some output =>
        refine tidy_settle (fun q delay => ?_) tidy_deliver p.begin output
        split
        · exact ih q
        · exact ih q

theorem tidy_blocking (plan : Plan) : (blocking plan).Tidy 0 := by
  intro won
  cases won with
  | false => rfl
  | true => exact tidy_blockingAttempts plan _ _

theorem tidy_async (plan : Plan) : (async plan).Tidy 0 := by
  intro won
  cases won with
  | false => rfl
  | true => exact tidy_asyncAttempts plan _ _

end Course

namespace Exchange

/-- The calls in `C` are at work or gone. The outboxes are empty, but for that of call `d`, which
holds `n` verdicts. -/
structure Quiet (C : CallId → Prop) (d : CallId) (n : Nat) (x : Exchange) : Prop where
  away : ∀ c, C c → ∃ call, x.call? c = some call ∧ call.presence ≠ .here
  outbox : ∀ e call, x.call? e = some call → call.outbox.size = if e = d then n else 0

variable {C : CallId → Prop} {c d e : CallId} {n : Nat} {x y z : Exchange}

namespace Quiet

lemma of_calls (h : Quiet C d n x) (hcalls : y.calls = x.calls) : Quiet C d n y := by
  have hcall := call?_congr hcalls
  refine ⟨fun c hc => ?_, fun e call he => ?_⟩
  · rw [hcall]
    exact h.away c hc
  · rw [hcall] at he
    exact h.outbox e call he

lemma mono {D : CallId → Prop} (h : Quiet C d n x) (hDC : ∀ c, D c → C c) : Quiet D d n x :=
  ⟨fun c hc => h.away c (hDC c hc), h.outbox⟩

lemma note (h : Quiet C d n x) (entry : Entry) : Quiet C d n (x.note entry) := h.of_calls rfl

lemma tell (h : Quiet C d n x) (e : CallId) (notice : Notice) : Quiet C d n (x.tell e notice) :=
  h.of_calls (calls_tell x e notice)

lemma modify (h : Quiet C d n x) (e : CallId) {f : Call → Call}
    (houtbox : ∀ call, (f call).outbox.size = call.outbox.size)
    (haway : C e → ∀ call, (f call).presence = call.presence) : Quiet C d n (x.modify e f) := by
  refine ⟨fun c hc => ?_, fun g call hg => ?_⟩
  · obtain ⟨call, hcall, hpresence⟩ := h.away c hc
    rw [call?_modify, hcall]
    split
    case isTrue hec =>
      refine ⟨f call, rfl, ?_⟩
      rw [haway (hec ▸ hc)]
      exact hpresence
    case isFalse => exact ⟨call, rfl, hpresence⟩
  · rcases call?_of_modify hg with ⟨-, hg⟩ | ⟨former, rfl, hformer, rfl⟩
    · exact h.outbox g call hg
    · rw [houtbox]
      exact h.outbox e former hformer

/-- The outbox of the call at hand gets another content. -/
lemma setOutbox (h : Quiet C d n x) {outbox : Delivery.Outbox Verdict} {m : Nat}
    (hsize : outbox.size = m) : Quiet C d m (x.modify d ({ · with outbox })) := by
  refine ⟨fun c hc => ?_, fun e call he => ?_⟩
  · obtain ⟨call, hcall, hpresence⟩ := h.away c hc
    rw [call?_modify, hcall]
    split
    · exact ⟨_, rfl, hpresence⟩
    · exact ⟨call, rfl, hpresence⟩
  · rcases call?_of_modify he with ⟨hde, he⟩ | ⟨former, rfl, hformer, rfl⟩
    · have hsame := h.outbox e call he
      rw [if_neg hde.symm] at hsame ⊢
      exact hsame
    · rw [if_pos rfl]
      exact hsize

lemma dispose (h : Quiet C d n x) (e : CallId) : Quiet C d n (x.dispose e).2 := by
  rw [Exchange.dispose_eq_tell]
  split
  case h_1 => exact h
  case h_2 call hcall =>
    have hmodified := h.modify e (f := ({ · with handle := call.handle.dispose.2 }))
      (fun _ => rfl) fun _ _ => rfl
    dsimp only
    split
    · exact hmodified.tell e _
    · exact hmodified

lemma ring (h : Quiet C d n x) (alarm : Alarm) : Quiet C d n (x.ring alarm) :=
  (h.dispose alarm.target).of_calls rfl

lemma release (h : Quiet C d n x) (e : CallId) : Quiet C d n (x.release e) :=
  (h.dispose e).modify e (fun _ => rfl) fun _ _ => rfl

lemma known (h : Quiet C d n x) (hc : C c) : (x.call? c).isSome := by
  obtain ⟨call, hcall, -⟩ := h.away c hc
  rw [hcall]
  rfl

/-- Any outbox is empty, so it is as well that of another call. -/
lemma other (h : Quiet C d 0 x) (e : CallId) : Quiet C e 0 x where
  away := h.away
  outbox g call hg := by
    have hempty := h.outbox g call hg
    rw [ite_self] at hempty ⊢
    exact hempty

lemma not_present (h : Quiet C d n x) {call : Call} (hpresent : x.present? e = some call) :
    ¬ C e := by
  intro he
  obtain ⟨away, haway, hpresence⟩ := h.away e he
  unfold present? at hpresent
  rw [haway] at hpresent
  simp [hpresence] at hpresent

end Quiet

/-- All that has happened to the calls in `C` is that their handles may have been disposed. No call
has been forgotten, and no disposal has been undone. -/
structure Calm (C : CallId → Prop) (x y : Exchange) : Prop where
  call : ∀ c, C c → y.call? c = x.call? c ∨ y.call? c = (x.call? c).map Call.disposed
  acts : ∀ c, C c → y.acts c = x.acts c
  known : ∀ e, (y.call? e).isSome = (x.call? e).isSome
  disposed : ∀ e, x.isDisposed e = true → y.isDisposed e = true

namespace Calm

lemma of_calls (hcalls : y.calls = x.calls) (hacts : ∀ c, C c → y.acts c = x.acts c) :
    Calm C x y where
  call c _ := Or.inl (call?_congr hcalls c)
  acts := hacts
  known e := by rw [call?_congr hcalls]
  disposed e he := by
    unfold isDisposed
    rw [call?_congr hcalls]
    exact he

lemma refl (C : CallId → Prop) (x : Exchange) : Calm C x x := of_calls rfl fun _ _ => rfl

lemma trans (hxy : Calm C x y) (hyz : Calm C y z) : Calm C x z where
  call c hc := by
    rcases hyz.call c hc with hz | hz
    · rw [hz]
      exact hxy.call c hc
    · right
      rcases hxy.call c hc with hy | hy
      · rw [hz, hy]
      · rw [hz, hy, Option.map_map]
        congr 1
        funext call
        exact call.disposed_disposed
  acts c hc := (hyz.acts c hc).trans (hxy.acts c hc)
  known e := (hyz.known e).trans (hxy.known e)
  disposed e he := hyz.disposed e (hxy.disposed e he)

lemma note {entry : Entry} (h : ∀ c, C c → entry.act? c = none) : Calm C x (x.note entry) :=
  of_calls rfl fun c hc => acts_note_of_none (h c hc)

/-- An entry about a call that is not in `C`. -/
lemma note_of_not (hd : ¬ C d) (entry : Entry) (h : ∀ c, d ≠ c → entry.act? c = none) :
    Calm C x (x.note entry) :=
  note fun c hc => h c fun hdc => hd (hdc ▸ hc)

lemma tell {notice : Notice} (h : ∀ c, C c → e ≠ c ∨ notice.kind = .handleDisposed) :
    Calm C x (x.tell e notice) :=
  of_calls (calls_tell x e notice) fun c hc => acts_tell_of_not (h c hc)

lemma tell_of_not (he : ¬ C e) (notice : Notice) : Calm C x (x.tell e notice) :=
  tell fun _ hc => Or.inl fun hec => he (hec ▸ hc)

lemma modify (he : ¬ C e) {f : Call → Call}
    (hf : ∀ call, x.call? e = some call → call.handle.isDisposed = true →
      (f call).handle.isDisposed = true) : Calm C x (x.modify e f) where
  call _ hc := Or.inl (call?_modify_of_ne x f fun hec => he (hec ▸ hc))
  acts _ _ := rfl
  known g := isSome_call?_modify x e f g
  disposed g hg := by
    unfold isDisposed at hg ⊢
    rw [call?_modify]
    split
    case isTrue heg =>
      subst heg
      cases hcall : x.call? e with
      | none =>
        rw [hcall] at hg
        cases hg
      | some call =>
        rw [hcall] at hg
        exact hf call hcall hg
    case isFalse => exact hg

lemma dispose (x : Exchange) (e : CallId) : Calm C x (x.dispose e).2 where
  call c _ := by
    rw [call?_dispose]
    split
    · exact Or.inr rfl
    · exact Or.inl rfl
  acts c _ := acts_dispose x e c
  known g := by
    rw [call?_dispose]
    split
    · exact Option.isSome_map
    · rfl
  disposed g hg := by
    unfold isDisposed at hg ⊢
    rw [call?_dispose]
    split
    · cases hcall : x.call? g with
      | none =>
        rw [hcall] at hg
        cases hg
      | some call => exact call.handle.isDisposed_dispose
    · exact hg

lemma ring (x : Exchange) (alarm : Alarm) : Calm C x (x.ring alarm) :=
  (dispose x alarm.target).trans (.of_calls rfl fun _ _ => rfl)

lemma elapse (x : Exchange) (nanos : Nat) : Calm C x (x.elapse nanos) := by
  have hlater : Calm C x { x with clock := x.clock + nanos } := .of_calls rfl fun _ _ => rfl
  unfold Exchange.elapse
  dsimp only
  split
  · split
    · exact hlater.trans (ring _ _)
    · exact hlater
  · exact hlater

lemma isSome (hcalm : Calm C x y) (h : (x.call? e).isSome) : (y.call? e).isSome := by
  rw [hcalm.known]
  exact h

end Calm

lemma Quiet.elapse (h : Quiet C d n x) (nanos : Nat) : Quiet C d n (x.elapse nanos) := by
  have hlater : Quiet C d n { x with clock := x.clock + nanos } := h.of_calls rfl
  unfold Exchange.elapse
  dsimp only
  split
  · split
    · exact hlater.ring _
    · exact hlater
  · exact hlater

lemma wait_calm (h : Quiet C d n x) (e : CallId) (delay : Duration) :
    Quiet C d n (x.wait e delay) ∧ Calm C x (x.wait e delay) := by
  have hset {y : Exchange} (hy : Quiet C d n y ∧ Calm C x y) (timer : Nat) :
      Quiet C d n { y with timer } ∧ Calm C x { y with timer } :=
    ⟨hy.1.of_calls rfl, hy.2.trans (.of_calls rfl fun _ _ => rfl)⟩
  have hring {y : Exchange} (hy : Quiet C d n y ∧ Calm C x y) (alarm : Alarm) :
      Quiet C d n (y.ring alarm) ∧ Calm C x (y.ring alarm) :=
    ⟨hy.1.ring alarm, hy.2.trans (.ring y alarm)⟩
  have hstart : Quiet C d n x ∧ Calm C x x := ⟨h, .refl C x⟩
  unfold wait
  split
  · exact hstart
  · dsimp only
    split
    · split
      · split
        · exact hring (hset hstart _) _
        · exact hset (hring (hset hstart _) _) _
      · exact hset hstart _
    · exact hset hstart _

section Deeds

variable (h : Quiet C d n x) (deed : Deed) (e : CallId)
include h

lemma perform_calm : Quiet C d n (x.perform deed e).2 ∧ Calm C x (x.perform deed e).2 := by
  cases deed with
  | dispose => exact ⟨h.dispose e, .dispose x e⟩
  | close =>
    unfold perform close
    dsimp only
    split
    · exact ⟨h, .refl C x⟩
    · exact ⟨h.dispose e, .dispose x e⟩
  | drop =>
    unfold perform drop
    dsimp only
    split
    case h_1 => exact ⟨h, .refl C x⟩
    case h_2 call hpresent =>
      have he := h.not_present hpresent
      have hgone : Quiet C d n _ := h.modify e (f := ({ · with presence := .gone })) (fun _ => rfl)
        fun hC => absurd hC he
      have hcalm : Calm C x _ := .modify he (f := ({ · with presence := .gone })) fun _ _ hf => hf
      exact ⟨hgone.release e, (hcalm.trans (.dispose _ e)).trans (.modify he fun _ _ hf => hf)⟩

lemma performFor_calm :
    Quiet C d n (x.performFor deed e).2 ∧ Calm C x (x.performFor deed e).2 := by
  unfold performFor
  split
  · exact perform_calm h deed e
  · exact ⟨h, .refl C x⟩

end Deeds

/-- Something done from `x` on is not stuck, leaves the outboxes empty and does nothing to the calls
in `C` but dispose their handles. -/
structure Gentle {α : Type} (C : CallId → Prop) (d : CallId) (x : Exchange)
    (done : Except Halt α × Exchange) : Prop where
  unstuck : done.1 ≠ .error .stuck
  quiet : Quiet C d 0 done.2
  calm : Calm C x done.2

lemma Gentle.error {α β : Type} {halt : Halt} (h : Gentle (α := α) C d x (.error halt, y)) :
    Gentle (α := β) C d x (.error halt, y) :=
  ⟨fun heq => h.unstuck (congrArg Except.error (Except.error.inj heq)), h.quiet, h.calm⟩

lemma Gentle.after {α : Type} {done : Except Halt α × Exchange} (hcalm : Calm C x y)
    (h : Gentle C d y done) : Gentle C d x done :=
  ⟨h.unstuck, h.quiet, hcalm.trans h.calm⟩

/-- Nested runs are not stuck and do nothing to the calls in `C` but dispose their handles. -/
def Nesting.IsGentle (nesting : Nesting) (C : CallId → Prop) : Prop :=
  ∀ c x, Quiet C c 0 x → (nesting c x).1 ≠ .ended (.error .stuck) ∧
    Quiet C c 0 (nesting c x).2 ∧ Calm C x (nesting c x).2

section Code

variable {α : Type} {nesting : Nesting}

lemma runFor_calm (hnesting : nesting.IsGentle C) (h : Quiet C d 0 x) (e : CallId) :
    (nesting.runFor e x).1 ≠ .ended (.error .stuck) ∧
      Quiet C d 0 (nesting.runFor e x).2 ∧ Calm C x (nesting.runFor e x).2 := by
  unfold Nesting.runFor
  split
  · obtain ⟨hreply, hquiet, hcalm⟩ := hnesting e x (h.other e)
    exact ⟨hreply, hquiet.other d, hcalm⟩
  · exact ⟨nofun, h, .refl C x⟩

/-- What user code can do to the calls in `C`: dispose their handles. -/
lemma gentle_play (hnesting : nesting.IsGentle C) (h : Quiet C d 0 x) (role : Role) (e : CallId)
    (script : Script α) : Gentle C d x (x.play nesting role e script) := by
  induction script generalizing x with
  | done value => exact ⟨nofun, h, .refl C x⟩
  | panic text => exact ⟨nofun, h, .refl C x⟩
  | act deed target next ih =>
    obtain ⟨hquiet, hcalm⟩ := performFor_calm h deed target
    exact (ih _ (hquiet.note _)).after (hcalm.trans (.note fun _ _ => rfl))
  | run target next ih =>
    obtain ⟨hreply, hquiet, hcalm⟩ := runFor_calm hnesting h target
    unfold play
    generalize nesting.runFor target x = ran at hreply hquiet hcalm ⊢
    obtain ⟨reply, y⟩ := ran
    split
    case h_1 heq =>
      cases heq
      exact absurd rfl hreply
    case h_2 heq =>
      cases heq
      exact (ih _ (hquiet.note _)).after (hcalm.trans (.note fun _ _ => rfl))

lemma gentle_invokeBody (hnesting : nesting.IsGentle C) (h : Quiet C d 0 x) (hd : ¬ C d)
    (hknown : (x.call? d).isSome) : Gentle C d x (x.invokeBody nesting d) := by
  obtain ⟨call, hcall⟩ := Option.isSome_iff_exists.mp hknown
  unfold invokeBody enter
  rw [hcall]
  have hcounted := h.modify d (f := ({ · with bodyCalls := call.bodyCalls + 1 }))
    (fun _ => rfl) fun _ _ => rfl
  have hcalm : Calm C x _ :=
    .modify hd (f := ({ · with bodyCalls := call.bodyCalls + 1 })) fun _ _ hf => hf
  have hnoted : Calm C x _ :=
    hcalm.trans (.note_of_not hd (.invoked d (call.bodyCalls + 1)) fun _ hdc => if_neg hdc)
  exact (gentle_play hnesting (hcounted.note _) .body d _).after hnoted

lemma gentle_consultPredicate (hnesting : nesting.IsGentle C) (h : Quiet C d 0 x) (hd : ¬ C d)
    (hknown : (x.call? d).isSome) (fault : Fault) :
    Gentle C d x (x.consultPredicate nesting d fault) := by
  obtain ⟨call, hcall⟩ := Option.isSome_iff_exists.mp hknown
  unfold consultPredicate
  rw [hcall]
  dsimp only
  split
  case h_1 => exact ⟨nofun, h, .refl C x⟩
  case h_2 predicate hpredicate =>
    have hcounted := h.modify d (f := ({ · with predicateCalls := call.predicateCalls + 1 }))
      (fun _ => rfl) fun _ _ => rfl
    have hcalm : Calm C x _ :=
      .modify hd (f := ({ · with predicateCalls := call.predicateCalls + 1 })) fun _ _ hf => hf
    have hplayed := (gentle_play hnesting hcounted .predicate d
      (predicate (call.predicateCalls + 1) fault)).after hcalm
    generalize play nesting _ _ _ _ = played at hplayed ⊢
    obtain ⟨answer, y⟩ := played
    cases answer with
    | ok again =>
      exact ⟨nofun, hplayed.quiet.note _, hplayed.calm.trans (.note fun _ _ => rfl)⟩
    | error halt => exact hplayed.error

lemma gentle_callBack (hnesting : nesting.IsGentle C) (h : Quiet C d 0 x) (hd : ¬ C d)
    (verdict : Verdict) : Gentle C d x (x.callBack nesting d verdict) := by
  have hdelivered (y : Exchange) : Calm C y (y.note (.delivered d verdict)) :=
    .note_of_not hd _ fun _ hdc => if_neg hdc
  unfold callBack enter
  split
  case h_1 call result hcall =>
    split
    case h_1 => exact ⟨nofun, h, .refl C x⟩
    case h_2 callback hcallback =>
      have hused := h.modify d (f := ({ · with onSuccess := none })) (fun _ => rfl) fun _ _ => rfl
      have hcalm : Calm C x _ := .modify hd (f := ({ · with onSuccess := none })) fun _ _ hf => hf
      exact (gentle_play hnesting (hused.note _) .onSuccess d _).after (hcalm.trans (hdelivered _))
  case h_2 call fault hcall =>
    split
    case h_1 => exact ⟨nofun, h, .refl C x⟩
    case h_2 callback hcallback =>
      have hused := h.modify d (f := ({ · with onFailure := none })) (fun _ => rfl) fun _ _ => rfl
      have hcalm : Calm C x _ := .modify hd (f := ({ · with onFailure := none })) fun _ _ hf => hf
      exact (gentle_play hnesting (hused.note _) .onFailure d _).after (hcalm.trans (hdelivered _))
  case h_3 => exact ⟨nofun, h, .refl C x⟩

end Code

lemma Quiet.start (h : Quiet C d n x) : Quiet C d n (x.start d).2 := by
  unfold Exchange.start
  split
  · exact h
  · exact h.modify d (fun _ => rfl) fun _ _ => rfl

lemma Calm.start (hd : ¬ C d) : Calm C x (x.start d).2 := by
  unfold Exchange.start
  split
  case h_1 => exact .refl C x
  case h_2 call hcall =>
    refine .modify hd fun former hformer hdisposed => ?_
    cases hcall.symm.trans hformer
    exact (Handle.isDisposed_start _).trans hdisposed

/-- The outbox is empty, so it takes the verdict unless it is closed. -/
lemma Quiet.pushVerdict (h : Quiet C d 0 x) (hknown : (x.call? d).isSome) (verdict : Verdict) :
    ((x.pushVerdict d verdict).1 = .ok (.ok 1) ∧ Quiet C d 1 (x.pushVerdict d verdict).2) ∨
      ∃ reason, (x.pushVerdict d verdict).1 = .ok (.error reason) ∧
        Quiet C d 0 (x.pushVerdict d verdict).2 := by
  obtain ⟨call, hcall⟩ := Option.isSome_iff_exists.mp hknown
  have hempty : call.outbox.size = 0 := (h.outbox d call hcall).trans (if_pos rfl)
  rcases pushVerdict_of_empty hcall hempty verdict with hpush | ⟨outbox, hone, hpush⟩
  · rw [hpush]
    exact Or.inr ⟨.closed, rfl, h⟩
  · rw [hpush]
    exact Or.inl ⟨rfl, h.setOutbox hone⟩

lemma Calm.pushVerdict (hd : ¬ C d) (verdict : Verdict) : Calm C x (x.pushVerdict d verdict).2 := by
  unfold Exchange.pushVerdict
  split
  · exact .refl C x
  · split
    · exact .modify hd fun _ _ hf => hf
    · exact .refl C x
    · exact .refl C x

lemma Quiet.popVerdict (h : Quiet C d n x) (hknown : (x.call? d).isSome) :
    (n = 0 ∧ (x.popVerdict d).1 = none ∧ Quiet C d 0 (x.popVerdict d).2) ∨
      ∃ m verdict, n = m + 1 ∧ (x.popVerdict d).1 = some verdict ∧
        Quiet C d m (x.popVerdict d).2 := by
  obtain ⟨call, hcall⟩ := Option.isSome_iff_exists.mp hknown
  have hsize : call.outbox.size = n := (h.outbox d call hcall).trans (if_pos rfl)
  rcases popVerdict_cases hcall with ⟨hzero, hpop⟩ | ⟨verdict, outbox, hmore, hpop⟩
  · obtain rfl : 0 = n := hzero.symm.trans hsize
    rw [hpop]
    exact Or.inl ⟨rfl, rfl, h⟩
  · rw [hpop]
    exact Or.inr ⟨outbox.size, verdict, hsize.symm.trans hmore, rfl, h.setOutbox rfl⟩

lemma Calm.popVerdict (hd : ¬ C d) : Calm C x (x.popVerdict d).2 := by
  unfold Exchange.popVerdict
  split
  · exact .refl C x
  · exact .modify hd fun _ _ hf => hf

/-- A tidy course that is carried out for another call leaves the calls in `C` alone. -/
theorem gentle_follow {nesting : Nesting} (hnesting : nesting.IsGentle C) (hd : ¬ C d)
    {course : Course} (htidy : course.Tidy n) (h : Quiet C d n x) (hknown : (x.call? d).isSome) :
    Gentle C d x (follow nesting d course x) := by
  -- Tidiness says how many verdicts the outbox holds at each step. It holds none at a push, so
  -- no push has to wait for room.
  induction course generalizing n x with
  | finished | panics =>
    obtain rfl : n = 0 := htidy
    exact ⟨nofun, h, .refl C x⟩
  | start next ih =>
    have hcalm : Calm C x _ := .start hd
    exact (ih _ (htidy _) h.start (hcalm.isSome hknown)).after hcalm
  | askDisposed next ih => exact ih _ (htidy _) h hknown
  | report notice next ih =>
    have hcalm : Calm C x _ := .tell_of_not hd notice
    exact (ih htidy (h.tell d notice) (hcalm.isSome hknown)).after hcalm
  | invoke next ih =>
    obtain ⟨rfl, htidy⟩ := htidy
    have hinvoked := gentle_invokeBody hnesting h hd hknown
    rw [follow]
    generalize x.invokeBody nesting d = invoked at hinvoked ⊢
    obtain ⟨output, y⟩ := invoked
    cases output with
    | ok output =>
      exact (ih _ (htidy output) hinvoked.quiet (hinvoked.calm.isSome hknown)).after hinvoked.calm
    | error halt => exact hinvoked.error
  | dispatch next ih =>
    obtain ⟨rfl, htidy⟩ := htidy
    rw [follow]
    split
    · have hinvoked := gentle_invokeBody hnesting h hd hknown
      generalize x.invokeBody nesting d = invoked at hinvoked ⊢
      obtain ⟨output, y⟩ := invoked
      cases output with
      | ok output =>
        exact (ih _ (htidy _) hinvoked.quiet (hinvoked.calm.isSome hknown)).after hinvoked.calm
      | error halt => exact hinvoked.error
    · exact ih _ (htidy none) h hknown
  | consult fault next ih =>
    obtain ⟨rfl, htidy⟩ := htidy
    have hasked := gentle_consultPredicate hnesting h hd hknown fault
    rw [follow]
    generalize x.consultPredicate nesting d fault = asked at hasked ⊢
    obtain ⟨answer, y⟩ := asked
    cases answer with
    | ok again => exact (ih _ (htidy again) hasked.quiet (hasked.calm.isSome hknown)).after hasked.calm
    | error halt => exact hasked.error
  | readClock next ih => exact ih _ (htidy _) h hknown
  | sleep nanos next ih =>
    have hcalm : Calm C x _ := .elapse x nanos
    exact (ih htidy (h.elapse nanos) (hcalm.isSome hknown)).after hcalm
  | await delay next ih =>
    obtain ⟨hquiet, hcalm⟩ := wait_calm h d delay
    have hnoted : Calm C x ((x.wait d delay).note (.waited d delay)) :=
      hcalm.trans (.note fun _ _ => rfl)
    exact (ih htidy (hquiet.note (.waited d delay)) (hnoted.isSome hknown)).after hnoted
  | push verdict next ih =>
    obtain ⟨rfl, haccepted, hrefused⟩ := htidy
    have hpushed := h.pushVerdict hknown verdict
    have hcalm : Calm C x _ := .pushVerdict hd verdict
    rw [follow]
    generalize x.pushVerdict d verdict = pushed at hcalm hpushed ⊢
    obtain ⟨answer, y⟩ := pushed
    rcases hpushed with ⟨rfl, hquiet⟩ | ⟨reason, rfl, hquiet⟩
    · exact (ih _ haccepted hquiet (hcalm.isSome hknown)).after hcalm
    · exact (ih _ (hrefused reason) hquiet (hcalm.isSome hknown)).after hcalm
  | pop next ih =>
    have hpopped := h.popVerdict hknown
    have hcalm : Calm C x _ := .popVerdict hd
    rw [follow]
    generalize x.popVerdict d = popped at hcalm hpopped ⊢
    obtain ⟨verdict, y⟩ := popped
    rcases hpopped with ⟨rfl, rfl, hquiet⟩ | ⟨m, verdict, rfl, rfl, hquiet⟩
    · exact (ih _ htidy hquiet (hcalm.isSome hknown)).after hcalm
    · exact (ih _ (htidy verdict) hquiet (hcalm.isSome hknown)).after hcalm
  | callback verdict next ih =>
    obtain ⟨rfl, htidy⟩ := htidy
    have hcalled := gentle_callBack hnesting h hd verdict
    rw [follow]
    generalize x.callBack nesting d verdict = called at hcalled ⊢
    obtain ⟨ended, y⟩ := called
    cases ended with
    | ok _ => exact (ih htidy hcalled.quiet (hcalled.calm.isSome hknown)).after hcalled.calm
    | error halt => exact hcalled.error

lemma setPresence_calm (h : Quiet C d n x) (hd : ¬ C d) (presence : Presence) :
    Quiet C d n (x.setPresence d presence) ∧ Calm C x (x.setPresence d presence) :=
  ⟨h.modify d (fun _ => rfl) fun hC => absurd hC hd, .modify hd fun _ _ hf => hf⟩

/-- A nested run does no more to the calls at work than dispose their handles, and is not stuck. -/
theorem isGentle_runWithin (C : CallId → Prop) (depth : Nat) :
    Nesting.IsGentle (runWithin depth) C := by
  induction depth with
  | zero =>
    intro c x h
    unfold runWithin
    split
    case h_1 reply hrunnable => exact ⟨runnable_ne_ended hrunnable _, h, .refl C x⟩
    case h_2 => exact ⟨nofun, h, .refl C x⟩
  | succ depth ih =>
    intro c x h
    unfold runWithin
    split
    case h_1 reply hrunnable => exact ⟨runnable_ne_ended hrunnable _, h, .refl C x⟩
    case h_2 plan hrunnable =>
      obtain ⟨call, hcall, hhere, -⟩ := exists_of_runnable hrunnable
      have hpresent : x.present? c = some call := by
        unfold present?
        rw [hcall]
        exact if_pos hhere
      -- The call is there, while those in `C` are at work or gone.
      have hc := h.not_present hpresent
      have hknown : (x.call? c).isSome := by rw [hcall]; rfl
      obtain ⟨hbusy, hcalm⟩ := setPresence_calm h hc .busy
      have hfollowed := (gentle_follow ih hc (Course.tidy_blocking plan) hbusy
        (hcalm.isSome hknown)).after hcalm
      obtain ⟨hback, hafter⟩ := setPresence_calm hfollowed.quiet hc .here
      exact ⟨fun heq => hfollowed.unstuck (RunReply.ended.inj heq), hback,
        hfollowed.calm.trans hafter⟩

/-- A run does not undo the disposal of a handle, be it that of its own call. -/
lemma isDisposed_of_follow {nesting : Nesting} (hnesting : nesting.IsGentle fun _ => False)
    {course : Course} (htidy : course.Tidy n) (h : Quiet C d n x) (hknown : (x.call? d).isSome)
    (hlive : (follow nesting d course x).2.isDisposed e = false) : x.isDisposed e = false := by
  have hgentle := gentle_follow hnesting not_false htidy (h.mono nofun) hknown
  cases hx : x.isDisposed e with
  | false => rfl
  | true =>
    rw [hgentle.calm.disposed e hx] at hlive
    cases hlive

/-- All outboxes are empty. -/
def Settled (x : Exchange) : Prop := ∀ c call, x.call? c = some call → call.outbox.queue = []

lemma Quiet.settled (h : Quiet C d 0 x) : x.Settled := by
  intro e call hcall
  have hempty := h.outbox e call hcall
  rw [ite_self] at hempty
  exact List.eq_nil_of_length_eq_zero hempty

lemma Settled.quiet (h : x.Settled) (d : CallId) : Quiet (fun _ => False) d 0 x := by
  refine ⟨nofun, fun e call hcall => ?_⟩
  rw [ite_self]
  exact congrArg List.length (h e call hcall)

/-- How a run begins: its call is at work or given away. -/
lemma Settled.quiet_setPresence (h : x.Settled) (hknown : ∃ call, x.call? c = some call)
    {presence : Presence} (hpresence : presence ≠ .here) :
    Quiet (· = c) c 0 (x.setPresence c presence) := by
  have hset := (h.quiet c).modify c (f := ({ · with presence })) (fun _ => rfl) nofun
  refine ⟨?_, hset.outbox⟩
  rintro _ rfl
  obtain ⟨call, hcall⟩ := hknown
  refine ⟨{ call with presence }, ?_, hpresence⟩
  exact call?_modify_of_known hcall _

lemma isDisposed_setPresence (x : Exchange) (c : CallId) (presence : Presence) (d : CallId) :
    (x.setPresence c presence).isDisposed d = x.isDisposed d := by
  unfold isDisposed setPresence
  rw [call?_modify]
  split
  · cases x.call? d <;> rfl
  · rfl

end Exchange

end Redial
