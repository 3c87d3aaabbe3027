import Redial.Proofs.Allowances
import Redial.Proofs.NestedRuns

/-!
# The life of a call

Whatever is done on an exchange, a call keeps its plan, and its handle never goes back. A call that
is not idle any more does nothing but what is left of its one run; one that is idle has done nothing
yet. So all that a call ever does are the acts of a single run.
-/

namespace Redial

/-- How far a handle has come. -/
def HandleState.rank : HandleState → Nat
  | idle => 0
  | running => 1
  | disposed => 2

lemma Handle.rank_start (h : Handle) : h.state.rank ≤ h.start.2.state.rank := by
  obtain ⟨state, signalled⟩ := h
  cases state <;> simp [start, HandleState.rank]

lemma Handle.rank_dispose (h : Handle) : h.state.rank ≤ h.dispose.2.state.rank := by
  obtain ⟨state, signalled⟩ := h
  cases state <;> simp [dispose, swap, signal, HandleState.rank]

lemma HandleState.ne_idle_of_rank_le {before after : HandleState} (h : before.rank ≤ after.rank)
    (hbefore : before ≠ .idle) : after ≠ .idle := by
  rintro rfl
  cases before with
  | idle => exact hbefore rfl
  | running | disposed => cases h

namespace Exchange

variable {x y z : Exchange} {c d : CallId} {n m : Nat} {plan : Plan}

/-- Call `c` is still there with its plan, and its handle has not gone back. -/
def Keeps (c : CallId) (x y : Exchange) : Prop :=
  ∀ call, x.call? c = some call → ∃ after, y.call? c = some after ∧ after.plan = call.plan ∧
    call.handle.state.rank ≤ after.handle.state.rank

/-- Call `c` has been run or disposed, and its outbox holds `n` verdicts. -/
def Begun (c : CallId) (n : Nat) (x : Exchange) : Prop :=
  ∃ call, x.call? c = some call ∧ call.handle.state ≠ .idle ∧ call.outbox.size = n

/-- Call `c` has this plan, is idle, and its outbox is empty. -/
def Unused (c : CallId) (plan : Plan) (x : Exchange) : Prop :=
  ∃ call, x.call? c = some call ∧ call.plan = plan ∧ call.handle.state = .idle ∧
    call.outbox.size = 0

/-- What may become of call `c`, seen from outside its runs. Once it has begun it does nothing more;
before that it may go through one run. -/
structure Ages (c : CallId) (x y : Exchange) : Prop where
  keeps : Keeps c x y
  begun : ∀ n, x.Begun c n → y.Begun c n ∧ y.acts c = x.acts c
  unused : ∀ plan, x.Unused c plan → (y.Unused c plan ∧ y.acts c = x.acts c) ∨
    ∃ n l, y.Begun c n ∧ y.acts c = x.acts c ++ l ∧ plan.allowance.Covers l

namespace Keeps

lemma refl (c : CallId) (x : Exchange) : Keeps c x x :=
  fun call hcall => ⟨call, hcall, rfl, Nat.le_refl _⟩

lemma trans (hxy : Keeps c x y) (hyz : Keeps c y z) : Keeps c x z := by
  intro call hcall
  obtain ⟨mid, hmid, hplan, hrank⟩ := hxy call hcall
  obtain ⟨after, hafter, hplan', hrank'⟩ := hyz mid hmid
  exact ⟨after, hafter, hplan'.trans hplan, Nat.le_trans hrank hrank'⟩

lemma of_call? (hcall : y.call? c = x.call? c) : Keeps c x y := by
  intro call hx
  rw [← hcall] at hx
  exact ⟨call, hx, rfl, Nat.le_refl _⟩

lemma modify (x : Exchange) (d : CallId) {f : Call → Call}
    (hplan : ∀ call, (f call).plan = call.plan)
    (hrank : ∀ call, x.call? d = some call →
      call.handle.state.rank ≤ (f call).handle.state.rank) : Keeps c x (x.modify d f) := by
  intro call hcall
  rw [call?_modify, hcall]
  split
  case isTrue hdc => exact ⟨f call, rfl, hplan call, hrank call (hdc ▸ hcall)⟩
  case isFalse => exact ⟨call, rfl, rfl, Nat.le_refl _⟩

end Keeps

namespace Ages

lemma trans (hxy : Ages c x y) (hyz : Ages c y z) : Ages c x z where
  keeps := hxy.keeps.trans hyz.keeps
  begun n hx := by
    obtain ⟨hy, hacts⟩ := hxy.begun n hx
    obtain ⟨hz, hacts'⟩ := hyz.begun n hy
    exact ⟨hz, hacts'.trans hacts⟩
  unused plan hx := by
    rcases hxy.unused plan hx with ⟨hy, hacts⟩ | ⟨n, l, hy, hacts, hcovers⟩
    · rw [← hacts]
      exact hyz.unused plan hy
    · obtain ⟨hz, hacts'⟩ := hyz.begun n hy
      exact Or.inr ⟨n, l, hz, hacts'.trans hacts, hcovers⟩

/-- Something happens to the call that is no act of a run. -/
lemma of_map {f : Call → Call} (hcall : y.call? c = (x.call? c).map f)
    (hplan : ∀ call, (f call).plan = call.plan)
    (hrank : ∀ call, x.call? c = some call → call.handle.state.rank ≤ (f call).handle.state.rank)
    (hsize : ∀ call, (f call).outbox.size = call.outbox.size) (hacts : y.acts c = x.acts c) :
    Ages c x y := by
  have hy {call : Call} (hx : x.call? c = some call) : y.call? c = some (f call) := by
    rw [hcall, hx]
    rfl
  refine ⟨fun call hx => ⟨f call, hy hx, hplan call, hrank call hx⟩, fun n hx => ⟨?_, hacts⟩,
    fun plan hx => ?_⟩
  · obtain ⟨call, hx, hstate, hn⟩ := hx
    have hafter := HandleState.ne_idle_of_rank_le (hrank call hx) hstate
    exact ⟨f call, hy hx, hafter, (hsize call).trans hn⟩
  · obtain ⟨call, hx, rfl, -, hzero⟩ := hx
    have hempty : (f call).outbox.size = 0 := (hsize call).trans hzero
    by_cases hidle : (f call).handle.state = .idle
    · exact Or.inl ⟨⟨f call, hy hx, hplan call, hidle, hempty⟩, hacts⟩
    · exact Or.inr ⟨0, [], ⟨f call, hy hx, hidle, hempty⟩, by simp [hacts],
        Allowance.covers_nil _⟩

/-- Nothing happens to the call. -/
lemma of_call? (hcall : y.call? c = x.call? c) (hacts : y.acts c = x.acts c) : Ages c x y :=
  of_map (f := id) (by rw [hcall, Option.map_id_fun, id_eq]) (fun _ => rfl)
    (fun _ _ => Nat.le_refl _) (fun _ => rfl) hacts

lemma refl (c : CallId) (x : Exchange) : Ages c x x := of_call? rfl rfl

lemma of_same (hcalls : y.calls = x.calls) (hjournal : y.journal = x.journal) : Ages c x y :=
  of_call? (call?_congr hcalls c) (acts_congr hjournal c)

/-- What others do to a call is nothing, or it is what happens when its handle is disposed. -/
lemma of_calm (h : Calm (· = c) x y) : Ages c x y := by
  rcases h.call c rfl with hsame | hdisposed
  · exact of_call? hsame (h.acts c rfl)
  · exact of_map hdisposed (fun _ => rfl) (fun call _ => call.handle.rank_dispose) (fun _ => rfl)
      (h.acts c rfl)

/-- A change to one call that keeps its plan and the size of its outbox, and does not take its
handle back. -/
lemma modify (x : Exchange) (d : CallId) {f : Call → Call}
    (hplan : ∀ call, (f call).plan = call.plan)
    (hrank : ∀ call, x.call? d = some call → call.handle.state.rank ≤ (f call).handle.state.rank)
    (hsize : ∀ call, (f call).outbox.size = call.outbox.size) : Ages c x (x.modify d f) := by
  by_cases hdc : d = c
  · subst hdc
    exact of_map (call?_modify_self x d f) hplan hrank hsize rfl
  · exact of_call? (call?_modify_of_ne x f hdc) rfl

/-- A change to another call. -/
lemma modify_of_ne (hdc : d ≠ c) (x : Exchange) (f : Call → Call) : Ages c x (x.modify d f) :=
  of_call? (call?_modify_of_ne x f hdc) rfl

lemma note {entry : Entry} (h : entry.act? c = none) : Ages c x (x.note entry) :=
  of_call? rfl (acts_note_of_none h)

lemma tell (hdc : d ≠ c) (x : Exchange) (notice : Notice) : Ages c x (x.tell d notice) :=
  of_call? (call?_tell x d notice c) (acts_tell_of_not (Or.inl hdc))

lemma dispose (x : Exchange) (d : CallId) : Ages c x (x.dispose d).2 := of_calm (.dispose x d)

lemma ring (x : Exchange) (alarm : Alarm) : Ages c x (x.ring alarm) := of_calm (.ring x alarm)

lemma elapse (x : Exchange) (nanos : Nat) : Ages c x (x.elapse nanos) := of_calm (.elapse x nanos)

lemma setPresence (x : Exchange) (d : CallId) (presence : Presence) :
    Ages c x (x.setPresence d presence) :=
  modify x d (fun _ => rfl) (fun _ _ => Nat.le_refl _) fun _ => rfl

lemma start (x : Exchange) (d : CallId) : Ages c x (x.start d).2 := by
  unfold Exchange.start
  split
  case h_1 => exact refl c x
  case h_2 call hcall =>
    refine modify x d (fun _ => rfl) (fun former hformer => ?_) fun _ => rfl
    cases hcall.symm.trans hformer
    exact call.handle.rank_start

lemma release (x : Exchange) (d : CallId) : Ages c x (x.release d) :=
  (dispose x d).trans (modify _ d (fun _ => rfl) (fun _ _ => Nat.le_refl _) fun _ => rfl)

lemma perform (x : Exchange) (deed : Deed) (d : CallId) : Ages c x (x.perform deed d).2 := by
  cases deed with
  | dispose => exact dispose x d
  | close =>
    unfold Exchange.perform Exchange.close
    dsimp only
    split
    · exact refl c x
    · exact dispose x d
  | drop =>
    unfold Exchange.perform Exchange.drop
    dsimp only
    split
    · exact refl c x
    · exact (setPresence x d .gone).trans (release _ d)

lemma performFor (x : Exchange) (deed : Deed) (d : CallId) : Ages c x (x.performFor deed d).2 := by
  unfold Exchange.performFor
  split
  · exact perform x deed d
  · exact refl c x

lemma wait (x : Exchange) (d : CallId) (delay : Duration) : Ages c x (x.wait d delay) := by
  have hset (y : Exchange) (timer : Nat) : Ages c y { y with timer } := of_same rfl rfl
  unfold Exchange.wait
  split
  · exact refl c x
  · dsimp only
    split
    · split
      · split
        · exact (hset _ _).trans (ring _ _)
        · exact ((hset _ _).trans (ring _ _)).trans (hset _ _)
      · exact hset _ _
    · exact hset _ _

end Ages

/-- All that nested runs do to call `c` is what may become of it. -/
def Nesting.Ages (nesting : Nesting) (c : CallId) : Prop := ∀ d x, Exchange.Ages c x (nesting d x).2

section Code

variable {nesting : Nesting} (hnesting : nesting.Ages c)
include hnesting

lemma ages_runFor (d : CallId) (x : Exchange) : Ages c x (nesting.runFor d x).2 := by
  unfold Nesting.runFor
  split
  · exact hnesting d x
  · exact .refl c x

/-- What user code does to a call, be it its own code or that of another call. -/
theorem ages_play {α : Type} (role : Role) (d : CallId) (script : Script α) (x : Exchange) :
    Ages c x (x.play nesting role d script).2 := by
  induction script generalizing x with
  | done value => exact .refl c x
  | panic text => exact .refl c x
  | act deed target next ih =>
    exact (Ages.performFor x deed target).trans ((Ages.note rfl).trans (ih _ _))
  | run target next ih =>
    have hran := ages_runFor hnesting target x
    unfold play
    generalize nesting.runFor target x = ran at hran ⊢
    obtain ⟨reply, y⟩ := ran
    split
    case h_1 heq =>
      cases heq
      exact hran
    case h_2 heq =>
      cases heq
      exact hran.trans ((Ages.note rfl).trans (ih _ _))

/-- A predicate leaves no act behind. -/
lemma ages_consultPredicate (d : CallId) (fault : Fault) (x : Exchange) :
    Ages c x (x.consultPredicate nesting d fault).2 := by
  unfold consultPredicate
  split
  case h_1 => exact .refl c x
  case h_2 call _ =>
    dsimp only
    split
    case h_1 => exact .refl c x
    case h_2 predicate _ =>
      have hcounted :
          Ages c x (x.modify d ({ · with predicateCalls := call.predicateCalls + 1 })) :=
        .modify x d (fun _ => rfl) (fun _ _ => Nat.le_refl _) fun _ => rfl
      have hplayed := hcounted.trans
        (ages_play hnesting .predicate d (predicate (call.predicateCalls + 1) fault) _)
      generalize play nesting _ _ _ _ = played at hplayed ⊢
      obtain ⟨answer, y⟩ := played
      cases answer with
      | ok again => exact hplayed.trans (.note rfl)
      | error halt => exact hplayed

section Others

variable (hdc : d ≠ c)
include hdc

lemma ages_invokeBody_of_ne (x : Exchange) : Ages c x (x.invokeBody nesting d).2 := by
  have hnote (y : Exchange) (n : Nat) : Ages c y (y.note (.invoked d n)) := .note (if_neg hdc)
  unfold invokeBody enter
  split
  · exact .refl c x
  · exact (Ages.modify_of_ne hdc x _).trans ((hnote _ _).trans (ages_play hnesting _ _ _ _))

lemma ages_callBack_of_ne (verdict : Verdict) (x : Exchange) :
    Ages c x (x.callBack nesting d verdict).2 := by
  have hnote (y : Exchange) : Ages c y (y.note (.delivered d verdict)) := .note (if_neg hdc)
  have hcalled (f : Call → Call) {role : Role} (script : Script Unit) :
      Ages c x (play nesting role d script ((x.modify d f).note (.delivered d verdict))).2 :=
    (Ages.modify_of_ne hdc x f).trans ((hnote _).trans (ages_play hnesting _ _ _ _))
  unfold callBack enter
  split
  case h_1 =>
    split
    · exact .refl c x
    · exact hcalled _ _
  case h_2 =>
    split
    · exact .refl c x
    · exact hcalled _ _
  case h_3 => exact .refl c x

end Others

end Code

section Others

variable (hdc : d ≠ c)
include hdc

lemma ages_pushVerdict_of_ne (verdict : Verdict) (x : Exchange) :
    Ages c x (x.pushVerdict d verdict).2 := by
  unfold pushVerdict
  split
  · exact .refl c x
  · split
    · exact .modify_of_ne hdc x _
    · exact .refl c x
    · exact .refl c x

lemma ages_popVerdict_of_ne (x : Exchange) : Ages c x (x.popVerdict d).2 := by
  unfold popVerdict
  split
  · exact .refl c x
  · exact .modify_of_ne hdc x _

/-- What the run of another call does to a call. -/
theorem ages_follow_of_ne {nesting : Nesting} (hnesting : nesting.Ages c) (course : Course)
    (x : Exchange) : Ages c x (follow nesting d course x).2 := by
  induction course generalizing x with
  | finished | panics => exact .refl c x
  | start next ih => exact (Ages.start x d).trans (ih _ _)
  | askDisposed next ih | readClock next ih => exact ih _ x
  | report notice next ih => exact (Ages.tell hdc x notice).trans (ih _)
  | invoke next ih =>
    have hinvoked := ages_invokeBody_of_ne hnesting hdc x
    rw [follow]
    generalize x.invokeBody nesting d = invoked at hinvoked ⊢
    obtain ⟨output, y⟩ := invoked
    cases output with
    | ok output => exact hinvoked.trans (ih _ _)
    | error halt => exact hinvoked
  | dispatch next ih =>
    rw [follow]
    split
    · have hinvoked := ages_invokeBody_of_ne hnesting hdc x
      generalize x.invokeBody nesting d = invoked at hinvoked ⊢
      obtain ⟨output, y⟩ := invoked
      cases output with
      | ok output => exact hinvoked.trans (ih _ _)
      | error halt => exact hinvoked
    · exact ih _ x
  | consult fault next ih =>
    have hasked := ages_consultPredicate hnesting d fault x
    rw [follow]
    generalize x.consultPredicate nesting d fault = asked at hasked ⊢
    obtain ⟨answer, y⟩ := asked
    cases answer with
    | ok again => exact hasked.trans (ih _ _)
    | error halt => exact hasked
  | sleep nanos next ih => exact (Ages.elapse x nanos).trans (ih _)
  | await delay next ih => exact (Ages.wait x d delay).trans ((Ages.note rfl).trans (ih _))
  | push verdict next ih =>
    have hpushed := ages_pushVerdict_of_ne hdc verdict x
    rw [follow]
    generalize x.pushVerdict d verdict = pushed at hpushed ⊢
    obtain ⟨answer, y⟩ := pushed
    cases answer with
    | ok answer => exact hpushed.trans (ih _ _)
    | error halt => exact hpushed
  | pop next ih => exact (ages_popVerdict_of_ne hdc x).trans (ih _ _)
  | callback verdict next ih =>
    have hcalled := ages_callBack_of_ne hnesting hdc verdict x
    rw [follow]
    generalize x.callBack nesting d verdict = called at hcalled ⊢
    obtain ⟨ended, y⟩ := called
    cases ended with
    | ok _ => exact hcalled.trans (ih _)
    | error halt => exact hcalled

end Others

/-- From `x` to `y` call `c` keeps to a course: it does what the course may still do. -/
structure Serves (c : CallId) (course : Course) (x y : Exchange) : Prop where
  keeps : Keeps c x y
  acts : ∀ n a, course.Spends n a → x.Begun c n →
    (∃ m, y.Begun c m) ∧ ∃ l, y.acts c = x.acts c ++ l ∧ a.Covers l

namespace Serves

variable {course next : Course}

lemma finished (c : CallId) (course : Course) (x : Exchange) : Serves c course x x :=
  ⟨.refl c x, fun n a _ hbegun => ⟨⟨n, hbegun⟩, [], (List.append_nil _).symm, a.covers_nil⟩⟩

/-- A step of the run, with what it costs. -/
lemma step (hrest : Serves c next y z) (hkeeps : Keeps c x y)
    (hstep : ∀ n a, course.Spends n a → x.Begun c n → ∃ m b k, next.Spends m b ∧ y.Begun c m ∧
      y.acts c = x.acts c ++ k ∧ a.Pays k b) : Serves c course x z := by
  refine ⟨hkeeps.trans hrest.keeps, fun n a hspends hbegun => ?_⟩
  obtain ⟨m, b, k, hnext, hy, hacts, hpays⟩ := hstep n a hspends hbegun
  obtain ⟨hz, l, hacts', hcovers⟩ := hrest.acts m b hnext hy
  refine ⟨hz, k ++ l, ?_, hcovers.append hpays⟩
  rw [hacts', hacts, List.append_assoc]

/-- A step that others may take as well, and that costs nothing. -/
lemma after (hrest : Serves c next y z) (hages : Ages c x y)
    (hspends : ∀ n a, course.Spends n a → next.Spends n a) : Serves c course x z := by
  refine hrest.step hages.keeps fun n a hcourse hbegun => ?_
  obtain ⟨hy, hacts⟩ := hages.begun n hbegun
  exact ⟨n, a, [], hspends n a hcourse, hy, by rw [hacts, List.append_nil], a.pays_nil⟩

end Serves

/-- From `x` to `y` call `c` does these acts if it has begun. -/
structure Does (c : CallId) (acts : List Act) (x y : Exchange) : Prop where
  keeps : Keeps c x y
  begun : ∀ n, x.Begun c n → y.Begun c n ∧ y.acts c = x.acts c ++ acts

lemma Does.trans {acts : List Act} (h : Does c acts x y) (hages : Ages c y z) :
    Does c acts x z := by
  refine ⟨h.keeps.trans hages.keeps, fun n hx => ?_⟩
  obtain ⟨hy, hacts⟩ := h.begun n hx
  obtain ⟨hz, hacts'⟩ := hages.begun n hy
  exact ⟨hz, hacts'.trans hacts⟩

/-- A call that does not exist has not begun. -/
lemma Does.of_none (h : x.call? c = none) (acts : List Act) : Does c acts x x := by
  refine ⟨.refl c x, fun n hx => ?_⟩
  obtain ⟨call, hcall, -⟩ := hx
  rw [h] at hcall
  cases hcall

lemma Ages.does (h : Ages c x y) : Does c [] x y := by
  refine ⟨h.keeps, fun n hx => ?_⟩
  obtain ⟨hy, hacts⟩ := h.begun n hx
  exact ⟨hy, by rw [hacts, List.append_nil]⟩

lemma Does.note {entry : Entry} {act : Act} (h : Ages c x y)
    (hact : entry.act? c = some act) : Does c [act] x (y.note entry) := by
  refine ⟨h.keeps, fun n hx => ?_⟩
  obtain ⟨hy, hacts⟩ := h.begun n hx
  exact ⟨hy, by rw [acts_note_of_some hact, hacts]⟩

lemma Serves.does {course next : Course} {acts : List Act} (hrest : Serves c next y z)
    (hdoes : Does c acts x y)
    (hspends : ∀ n a, course.Spends n a → ∃ b, next.Spends n b ∧ a.Pays acts b) :
    Serves c course x z := by
  refine hrest.step hdoes.keeps fun n a hcourse hbegun => ?_
  obtain ⟨b, hnext, hpays⟩ := hspends n a hcourse
  obtain ⟨hy, hacts⟩ := hdoes.begun n hbegun
  exact ⟨n, b, acts, hnext, hy, hacts, hpays⟩

section Own

variable {nesting : Nesting} (hnesting : nesting.Ages c)
include hnesting

lemma does_invokeBody (x : Exchange) : Does c [.body] x (x.invokeBody nesting c).2 := by
  unfold invokeBody enter
  split
  case h_1 hcall => exact .of_none hcall _
  case h_2 call _ =>
    have hcounted : Ages c x (x.modify c ({ · with bodyCalls := call.bodyCalls + 1 })) :=
      .modify x c (fun _ => rfl) (fun _ _ => Nat.le_refl _) fun _ => rfl
    have hact : Entry.act? c (.invoked c (call.bodyCalls + 1)) = some .body := if_pos rfl
    exact (Does.note hcounted hact).trans (ages_play hnesting .body c _ _)

/-- A callback that is missing or has been used is no act. -/
lemma does_callBack (verdict : Verdict) (x : Exchange) : ∃ acts,
    (acts = [] ∨ acts = [.callback verdict]) ∧ Does c acts x (x.callBack nesting c verdict).2 := by
  have hact : Entry.act? c (.delivered c verdict) = some (.callback verdict) := if_pos rfl
  unfold callBack enter
  split
  case h_1 =>
    split
    case h_1 => exact ⟨[], Or.inl rfl, (Ages.refl c x).does⟩
    case h_2 =>
      have hused : Ages c x (x.modify c ({ · with onSuccess := none })) :=
        .modify x c (fun _ => rfl) (fun _ _ => Nat.le_refl _) fun _ => rfl
      exact ⟨_, Or.inr rfl, (Does.note hused hact).trans (ages_play hnesting .onSuccess c _ _)⟩
  case h_2 =>
    split
    case h_1 => exact ⟨[], Or.inl rfl, (Ages.refl c x).does⟩
    case h_2 =>
      have hused : Ages c x (x.modify c ({ · with onFailure := none })) :=
        .modify x c (fun _ => rfl) (fun _ _ => Nat.le_refl _) fun _ => rfl
      exact ⟨_, Or.inr rfl, (Does.note hused hact).trans (ages_play hnesting .onFailure c _ _)⟩
  case h_3 => exact ⟨[], Or.inl rfl, (Ages.refl c x).does⟩

end Own

/-- That its handle is disposed is told on behalf of a call, but it is no act of its run. -/
lemma does_tell (notice : Notice) (x : Exchange) : ∃ acts,
    (acts = [] ∨ acts = [.event (notice.kind, notice.attempt)]) ∧
      Does c acts x (x.tell c notice) := by
  have hcall : (x.tell c notice).call? c = x.call? c := call?_tell x c notice c
  by_cases hkind : notice.kind = .handleDisposed
  · exact ⟨[], Or.inl rfl, (Ages.of_call? hcall (acts_tell_of_not (Or.inr hkind))).does⟩
  · refine ⟨_, Or.inr rfl, .of_call? hcall, fun n hx => ?_⟩
    obtain ⟨call, hx, hbegun⟩ := hx
    exact ⟨⟨call, hcall.trans hx, hbegun⟩, acts_tell_self hx hkind⟩

lemma Begun.setOutbox (h : x.Begun c n) {outbox : Delivery.Outbox Verdict}
    (hsize : outbox.size = m) : (x.modify c ({ · with outbox })).Begun c m := by
  obtain ⟨call, hcall, hstate, -⟩ := h
  refine ⟨{ call with outbox }, ?_, hstate, hsize⟩
  exact call?_modify_of_known hcall _

lemma Begun.pushVerdict (h : x.Begun c 0) (verdict : Verdict) :
    x.pushVerdict c verdict = (.ok (.error .closed), x) ∨
      ∃ y, x.pushVerdict c verdict = (.ok (.ok 1), y) ∧ y.Begun c 1 ∧ y.acts c = x.acts c := by
  have hbegun := h
  obtain ⟨call, hcall, -, hempty⟩ := h
  rcases pushVerdict_of_empty hcall hempty verdict with hclosed | ⟨outbox, hone, hpush⟩
  · exact Or.inl hclosed
  · exact Or.inr ⟨_, hpush, hbegun.setOutbox hone, rfl⟩

lemma Begun.popVerdict (h : x.Begun c n) :
    (n = 0 ∧ x.popVerdict c = (none, x)) ∨
      ∃ m verdict y, n = m + 1 ∧ x.popVerdict c = (some verdict, y) ∧ y.Begun c m ∧
        y.acts c = x.acts c := by
  have hbegun := h
  obtain ⟨call, hcall, -, rfl⟩ := h
  rcases popVerdict_cases hcall with ⟨hzero, hpop⟩ | ⟨verdict, outbox, hmore, hpop⟩
  · exact Or.inl ⟨hzero, hpop⟩
  · exact Or.inr ⟨outbox.size, verdict, _, hmore, hpop, hbegun.setOutbox rfl, rfl⟩

lemma keeps_pushVerdict (verdict : Verdict) (x : Exchange) :
    Keeps c x (x.pushVerdict c verdict).2 := by
  unfold pushVerdict
  split
  · exact .refl c x
  · split
    · exact .modify x c (fun _ => rfl) fun _ _ => Nat.le_refl _
    · exact .refl c x
    · exact .refl c x

lemma keeps_popVerdict (x : Exchange) : Keeps c x (x.popVerdict c).2 := by
  unfold popVerdict
  split
  · exact .refl c x
  · exact .modify x c (fun _ => rfl) fun _ _ => Nat.le_refl _

/-- What a call does on a course of its own: once it has begun, it keeps to the allowance, wherever
a panic cuts it short. -/
theorem serves_follow {nesting : Nesting} (hnesting : nesting.Ages c) (course : Course)
    (x : Exchange) : Serves c course x (follow nesting c course x).2 := by
  induction course generalizing x with
  | finished => exact .finished c _ x
  | panics => exact .finished c _ x
  | start next ih => exact (ih _ _).after (.start x c) fun n a h => h _
  | askDisposed next ih => exact (ih _ x).after (.refl c x) fun n a h => h _
  | report notice next ih =>
    obtain ⟨acts, hacts, htold⟩ := does_tell notice x
    refine (ih _).does htold ?_
    rintro n a ⟨b, hpays, hnext⟩
    rcases hacts with rfl | rfl
    · exact ⟨b, hnext, hpays.nil⟩
    · exact ⟨b, hnext, hpays⟩
  | invoke next ih =>
    have hinvoked := does_invokeBody hnesting x
    rw [follow]
    generalize x.invokeBody nesting c = invoked at hinvoked ⊢
    obtain ⟨output, y⟩ := invoked
    cases output with
    | ok output =>
      refine (ih output y).does hinvoked ?_
      rintro n a ⟨b, hpays, hnext⟩
      exact ⟨b, hnext output, hpays⟩
    | error halt =>
      refine (Serves.finished c .finished y).does hinvoked ?_
      rintro n a ⟨b, hpays, -⟩
      exact ⟨b, trivial, hpays⟩
  | dispatch next ih =>
    rw [follow]
    split
    · have hinvoked := does_invokeBody hnesting x
      generalize x.invokeBody nesting c = invoked at hinvoked ⊢
      obtain ⟨output, y⟩ := invoked
      cases output with
      | ok output =>
        refine (ih _ y).does hinvoked ?_
        rintro n a ⟨-, b, hpays, hnext⟩
        exact ⟨b, hnext output, hpays⟩
      | error halt =>
        refine (Serves.finished c .finished y).does hinvoked ?_
        rintro n a ⟨-, b, hpays, -⟩
        exact ⟨b, trivial, hpays⟩
    · exact (ih none x).after (.refl c x) fun n a h => h.1
  | consult fault next ih =>
    have hasked := ages_consultPredicate hnesting c fault x
    rw [follow]
    generalize x.consultPredicate nesting c fault = asked at hasked ⊢
    obtain ⟨answer, y⟩ := asked
    cases answer with
    | ok again => exact (ih again y).after hasked fun n a h => h again
    | error halt => exact (Serves.finished c .finished y).after hasked fun _ _ _ => trivial
  | readClock next ih => exact (ih _ x).after (.refl c x) fun n a h => h _
  | sleep nanos next ih => exact (ih _).after (.elapse x nanos) fun n a h => h
  | await delay next ih =>
    exact (ih _).after ((Ages.wait x c delay).trans (.note rfl)) fun n a h => h
  | push verdict next ih =>
    have hkeeps : Keeps c x _ := keeps_pushVerdict verdict x
    rw [follow]
    generalize hpushed : x.pushVerdict c verdict = pushed at hkeeps ⊢
    obtain ⟨answer, y⟩ := pushed
    cases answer with
    | ok answer =>
      refine (ih answer y).step hkeeps ?_
      rintro n a ⟨rfl, haccepted, hrefused⟩ hx
      rcases hx.pushVerdict verdict with hpush | ⟨_, hpush, hy, hacts⟩
      · cases hpushed.symm.trans hpush
        exact ⟨0, a, [], hrefused _, hx, (List.append_nil _).symm, a.pays_nil⟩
      · cases hpushed.symm.trans hpush
        exact ⟨1, a, [], haccepted, hy, by rw [hacts, List.append_nil], a.pays_nil⟩
    | error halt =>
      -- The outbox is empty when a verdict is pushed, so the push is answered.
      refine (Serves.finished c .finished y).step hkeeps ?_
      rintro n a ⟨rfl, -, -⟩ hx
      rcases hx.pushVerdict verdict with hpush | ⟨_, hpush, -⟩
      · cases hpushed.symm.trans hpush
      · cases hpushed.symm.trans hpush
  | pop next ih =>
    have hkeeps : Keeps c x _ := keeps_popVerdict x
    rw [follow]
    generalize hpopped : x.popVerdict c = popped at hkeeps ⊢
    obtain ⟨verdict, y⟩ := popped
    refine (ih verdict y).step hkeeps fun n a hspends hx => ?_
    rcases hx.popVerdict with ⟨rfl, hpop⟩ | ⟨m, _, _, rfl, hpop, hy, hacts⟩
    · cases hpopped.symm.trans hpop
      exact ⟨0, a, [], hspends, hx, (List.append_nil _).symm, a.pays_nil⟩
    · cases hpopped.symm.trans hpop
      exact ⟨m, a, [], hspends _, hy, by rw [hacts, List.append_nil], a.pays_nil⟩
  | callback verdict next ih =>
    obtain ⟨acts, hacts, hcalled⟩ := does_callBack hnesting verdict x
    have hpaid {a b : Allowance} (h : a.Pays [.callback verdict] b) : a.Pays acts b := by
      rcases hacts with rfl | rfl
      · exact h.nil
      · exact h
    rw [follow]
    generalize x.callBack nesting c verdict = called at hcalled ⊢
    obtain ⟨ended, y⟩ := called
    cases ended with
    | ok _ =>
      refine (ih y).does hcalled ?_
      rintro n a ⟨b, hpays, hnext⟩
      exact ⟨b, hnext, hpaid hpays⟩
    | error halt =>
      refine (Serves.finished c .finished y).does hcalled ?_
      rintro n a ⟨b, hpays, -⟩
      exact ⟨b, trivial, hpaid hpays⟩

lemma start_of_begun {call : Call} (hcall : x.call? c = some call)
    (hstate : call.handle.state ≠ .idle) : x.start c = (false, x) := by
  have hstart : call.handle.start = (false, call.handle) := if_neg hstate
  unfold start
  rw [hcall]
  dsimp only
  rw [hstart]
  refine congrArg (Prod.mk false) (modify_of_fixed fun former hformer => ?_)
  cases hcall.symm.trans hformer
  rfl

lemma start_of_idle {call : Call} (hcall : x.call? c = some call)
    (hstate : call.handle.state = .idle) :
    ∃ y, x.start c = (true, y) ∧ y.acts c = x.acts c ∧ y.Begun c call.outbox.size := by
  have hstart : call.handle.start = (true, { call.handle with state := .running }) := if_pos hstate
  unfold start
  rw [hcall]
  dsimp only
  rw [hstart]
  refine ⟨_, rfl, rfl, { call with handle := { call.handle with state := .running } }, ?_, ?_, rfl⟩
  · exact call?_modify_of_known hcall _
  · nofun

section Runs

variable {nesting : Nesting} (hnesting : nesting.Ages c) {course : Course}
  (hrun : course.IsRun plan)
include hnesting hrun

/-- A run of a call that has begun does nothing; else it is the one run of the call. -/
theorem ages_follow_own (hplan : ∀ call, x.call? c = some call → call.plan = plan) :
    Ages c x (follow nesting c course x).2 := by
  obtain ⟨next, rfl, hlate, hspends⟩ := hrun
  refine ⟨(serves_follow hnesting _ x).keeps, fun n hx => ?_, fun asked hx => ?_⟩
  · have hbegun := hx
    obtain ⟨call, hcall, hstate, -⟩ := hx
    rw [follow, start_of_begun hcall hstate]
    dsimp only
    rw [hlate]
    exact ⟨hbegun, rfl⟩
  · obtain ⟨call, hcall, rfl, hidle, hempty⟩ := hx
    obtain ⟨y, hstart, hacts, hy⟩ := start_of_idle hcall hidle
    rw [hempty] at hy
    have hserves := serves_follow hnesting (next true) y
    obtain ⟨⟨m, hm⟩, l, hdone, hcovers⟩ := hserves.acts 0 _ hspends hy
    rw [← hplan call hcall] at hcovers
    rw [hacts] at hdone
    rw [follow, hstart]
    exact Or.inr ⟨m, l, hm, hdone, hcovers⟩

lemma ages_follow (hplan : ∀ call, x.call? d = some call → call.plan = plan) :
    Ages c x (follow nesting d course x).2 := by
  by_cases hdc : d = c
  · subst hdc
    exact ages_follow_own hnesting hrun hplan
  · exact ages_follow_of_ne hdc hnesting course x

end Runs

lemma plan_setPresence (hrunnable : x.runnable d = .ok plan) (presence : Presence) :
    ∀ call, (x.setPresence d presence).call? d = some call → call.plan = plan := by
  intro call hcall
  obtain ⟨former, hformer, rfl⟩ := call?_of_modify_self hcall
  obtain ⟨known, hknown, -, hplan⟩ := exists_of_runnable hrunnable
  cases hknown.symm.trans hformer
  exact hplan

end Exchange

end Redial
