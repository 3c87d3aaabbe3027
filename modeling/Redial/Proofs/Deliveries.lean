import Redial.Proofs.OrderlyScenes

/-!
# Deliveries

Wherever a run delivers its verdict, the outbox of its call is open and empty. So the outbox takes
the verdict at once, whatever its rule and its room are, and gives it back as the only one. No run
ever tells that a delivery failed.
-/

namespace Redial

open StateTransition

namespace Course

/-- What remains of a delivery once the outbox has answered. -/
def afterPush (p : Progress) : Except Delivery.Refusal Nat → Course
  | .error reason => report { p.notice .deliveryOverflow with error := some reason.message } finished
  | .ok held => drain p held

/-- What remains of a delivery once the verdict has left the outbox. -/
def handOver (p : Progress) (verdict : Verdict) : Course :=
  askDisposed fun disposed =>
    if disposed then report (p.notice .deliverySuppressed) finished
    else report (verdictNotice p verdict) (callback verdict finished)

lemma deliver_eq (p : Progress) (verdict : Verdict) :
    deliver p verdict = askDisposed fun disposed =>
      if disposed then report (p.notice .deliverySuppressed) finished
      else push verdict (afterPush p) := rfl

lemma drain_one (p : Progress) : drain p 1 = pop fun
    | none => finished
    | some verdict => handOver p verdict := rfl

end Course

namespace Delivery.Outbox

variable {α : Type} {box : Outbox α}

/-- A value that goes through an empty outbox leaves it as it was. -/
lemma pop_append_of_empty (hempty : box.queue = []) (value : α) :
    (box.append value).pop = some (value, box) := by
  obtain ⟨capacity, hpos, rule, queue, isClosed⟩ := box
  obtain rfl : queue = [] := hempty
  rfl

lemma queue_of_pop {value : α} {after : Outbox α} (h : box.pop = some (value, after)) :
    box.queue = value :: after.queue := by
  revert h
  fun_cases pop box <;> intro h <;> cases h
  assumption

lemma queue_of_pop_eq_none (h : box.pop = none) : box.queue = [] := by
  revert h
  fun_cases pop box <;> intro h
  · assumption
  · cases h

end Delivery.Outbox

namespace Exchange

variable {x : Exchange} {c : CallId}

/-- The outbox of call `c` is open and empty. -/
def IsVacant (x : Exchange) (c : CallId) : Prop :=
  ∃ call, x.call? c = some call ∧ call.outbox.isClosed = false ∧ call.outbox.queue = []

lemma modify_modify (x : Exchange) (c : CallId) (f g : Call → Call) :
    (x.modify c f).modify c g = x.modify c fun call => g (f call) := by
  unfold modify
  congr 1
  rw [List.modify_modify_eq]
  congr 1
  funext entry
  exact Option.map_map g f entry

/-- A verdict goes through an outbox that is open and empty, and leaves everything as it was. -/
theorem IsVacant.exists_push (h : x.IsVacant c) (verdict : Verdict) :
    ∃ y, x.pushVerdict c verdict = (.ok (.ok 1), y) ∧ y.popVerdict c = (some verdict, x) := by
  obtain ⟨call, hcall, hopen, hempty⟩ := h
  refine ⟨_, pushVerdict_of_isOpen hcall hopen hempty verdict, ?_⟩
  have hback : (x.modify c ({ · with outbox := call.outbox.append verdict })).modify c
      ({ · with outbox := call.outbox }) = x := by
    rw [modify_modify]
    apply modify_of_fixed
    intro known hknown
    rw [hcall] at hknown
    cases hknown
    rfl
  unfold popVerdict
  rw [call?_modify_self, hcall, Option.map_some, Option.bind_some,
    Delivery.Outbox.pop_append_of_empty hempty]
  dsimp only
  rw [hback]

end Exchange

namespace Scene

open Exchange

variable {s t : Scene} {c : CallId} {next : Course}

/-- What a run finds of its outbox: it is open and empty where a delivery begins, where a verdict is
pushed and where the run is over. The outbox takes the verdict and gives it back, and the delivery
goes on with it, everything being as before. Nobody is stuck, and no failure is told of. -/
structure Delivers (s : Scene) : Prop where
  deliver : ∀ c p verdict, s.task = .run c (.deliver p verdict) → s.exchange.IsVacant c ∧
    (s.exchange.isDisposed c = false → (s.step.bind step).bind step =
      some ⟨.run c (.handOver p verdict), s.askers, s.exchange⟩)
  push : ∀ c verdict next, s.task = .run c (.push verdict next) → s.exchange.IsVacant c ∧
    ∃ y, s.exchange.pushVerdict c verdict = (.ok (.ok 1), y) ∧
      s.step = some ⟨.run c (next (.ok 1)), s.askers, y⟩
  finished : ∀ c, s.task = .run c .finished → s.exchange.IsVacant c
  report : ∀ c notice next, s.task = .run c (.report notice next) →
    notice.kind ≠ .deliveryOverflow
  ended : ∀ c how, s.task = .ended c how → how ≠ .error .stuck

/-- Where a run has emptied its outbox, that is still open. -/
lemma Orderly.isVacant (hs : s.Orderly) (htask : s.task = .run c next)
    (hempty : ∀ n, next.Tidy n → n = 0) : s.exchange.IsVacant c := by
  have hfits := hs.task
  have hworker : c ∈ s.workers := by
    unfold workers
    rw [htask]
    exact List.mem_cons_self
  rw [htask] at hfits
  obtain ⟨n, htidy, -, hquiet⟩ := hfits
  obtain ⟨call, hcall, -⟩ := hs.attended.away c hworker
  obtain rfl := hempty n htidy
  exact ⟨call, hcall, hs.attended.isOpen c call hcall (Or.inr hworker), hquiet.settled c call hcall⟩

theorem Orderly.delivers (hs : s.Orderly) : s.Delivers where
  deliver c p verdict htask := by
    have hvacant := hs.isVacant htask fun n htidy => (htidy false).1
    refine ⟨hvacant, fun hlive => ?_⟩
    obtain ⟨task, askers, x⟩ := s
    obtain rfl : task = .run c (.deliver p verdict) := htask
    obtain ⟨y, hpush, hpop⟩ := hvacant.exists_push verdict
    have hasked : Scene.step ⟨.run c (.deliver p verdict), askers, x⟩ =
        some ⟨.run c (.push verdict (.afterPush p)), askers, x⟩ := by
      rw [Course.deliver_eq, step_run, stepRun, hlive]
      rfl
    have hpopped : Scene.step ⟨.run c (.drain p 1), askers, y⟩ =
        some ⟨.run c (.handOver p verdict), askers, x⟩ := by
      rw [Course.drain_one, step_run, stepRun, hpop]
    rw [hasked, Option.bind_some, step_run, stepRun, hpush, Option.bind_some]
    exact hpopped
  push c verdict next htask := by
    have hvacant := hs.isVacant htask fun n htidy => htidy.1
    refine ⟨hvacant, ?_⟩
    obtain ⟨task, askers, x⟩ := s
    obtain rfl : task = .run c (.push verdict next) := htask
    obtain ⟨y, hpush, -⟩ := hvacant.exists_push verdict
    refine ⟨y, hpush, ?_⟩
    rw [step_run, stepRun, hpush]
  finished c htask := hs.isVacant htask fun n htidy => htidy
  report c notice next htask := (hs.isOrdinary htask).1
  ended c how htask := by
    have hfits := hs.task
    rw [htask] at hfits
    exact hfits.1

end Scene

namespace Exchange

variable {x y : Exchange} {c : CallId} {plan : Plan}

/-- No call has told that a delivery failed. -/
def NoOverflow (x : Exchange) : Prop :=
  ∀ c notice place, Entry.told c notice place ∈ x.journal → notice.kind ≠ .deliveryOverflow

namespace NoOverflow

lemma of_journal (h : x.NoOverflow) (hjournal : y.journal = x.journal) : y.NoOverflow := by
  unfold NoOverflow
  rw [hjournal]
  exact h

lemma note (h : x.NoOverflow) {entry : Entry} (hentry : entry.isTold = false) :
    (x.note entry).NoOverflow := by
  intro c notice place hmem
  rcases List.mem_cons.mp hmem with heq | hmem
  · rw [← heq] at hentry
    cases hentry
  · exact h c notice place hmem

lemma tell (h : x.NoOverflow) (d : CallId) {told : Notice} (hkind : told.kind ≠ .deliveryOverflow) :
    (x.tell d told).NoOverflow := by
  cases hcall : x.call? d with
  | none =>
    rw [tell_of_unknown hcall]
    exact h
  | some call =>
    obtain ⟨where?, -, hjournal⟩ := journal_tell hcall told
    intro c notice place hmem
    rw [hjournal] at hmem
    rcases List.mem_cons.mp hmem with heq | hmem
    · cases heq
      exact hkind
    · exact h c notice place hmem

lemma dispose (h : x.NoOverflow) (d : CallId) : (x.dispose d).2.NoOverflow := by
  cases hcall : x.call? d with
  | none =>
    rw [dispose_of_unknown hcall]
    exact h
  | some call =>
    cases hdisposed : call.handle.isDisposed with
    | true =>
      rw [dispose_of_isDisposed hcall hdisposed]
      exact h
    | false =>
      rw [dispose_of_live hcall hdisposed]
      have hchanged : (x.modify d ({ · with handle := call.handle.dispose.2 })).NoOverflow :=
        h.of_journal rfl
      exact hchanged.tell d nofun

end NoOverflow

/-- As long as calls tell of ordinary events only, none of these is an overflow. -/
lemma isCarried_noOverflow :
    IsCarried EventKind.IsOrdinary (fun _ => True) fun x y => x.NoOverflow → y.NoOverflow where
  same _ hjournal h := h.of_journal hjournal
  trans hxy hyz h := hyz (hxy h)
  note x entry hentry h := h.note hentry
  tell x d notice _ hkind h := h.tell d hkind.1
  start x d _ h := by
    unfold Exchange.start
    split
    · exact h
    · exact h.of_journal rfl
  change x d f _ _ h := h.of_journal rfl
  perform x deed d h := by
    rcases perform_cases x deed d with hsame | hdisposed | ⟨call, -, -, hdropped⟩
    · rw [hsame]
      exact h
    · rw [hdisposed]
      exact h.dispose d
    · have hgone : (x.setPresence d .gone).NoOverflow := h.of_journal rfl
      rw [hdropped]
      exact (hgone.dispose d).of_journal rfl

/-- No command makes a call tell of an overflow. -/
lemma isKept_noOverflow : IsKept fun x y => x.Ready → y.Ready ∧ (x.NoOverflow → y.NoOverflow) := by
  apply isCarried_noOverflow.isKept
  · intro x c presence h
    exact h.of_journal rfl
  · intro x c h
    exact (h.dispose c).of_journal rfl

end Exchange

namespace Standing

/-- How a run stands to an outbox that holds `n` verdicts. -/
def Fits (n : Nat) : Standing → Prop
  | before course => course.Tidy n ∧ course.Smooth
  | inBody next => n = 0 ∧ ∀ output, (next output).Resumes
  | inPredicate next => n = 0 ∧ ∀ again, (next again).Resumes
  | inCallback next => n = 0 ∧ next.Resumes

end Standing

/-- The verdict that a step puts into the outbox. -/
def Stride.pushed? : Stride → Option Verdict
  | .pushed verdict (.ok _) => some verdict
  | _ => none

/-- The verdict that a step takes out of the outbox. -/
def Stride.popped? : Stride → Option Verdict
  | .popped verdict => verdict
  | _ => none

/-- The outbox takes every verdict, so no failure is told of. -/
def Stride.IsSmooth : Stride → Prop
  | .pushed _ answer => answer = .ok 1
  | .told notice => notice.kind ≠ .deliveryOverflow
  | _ => True

namespace Standing

variable {standing after : Standing} {e f : Surroundings} {stride : Stride} {n : Nat}

/-- The outbox is empty where a run pushes, and takes the verdict. -/
lemma Leads.fits_push {verdict : Verdict} {answer : Except Delivery.Refusal Nat}
    (h : standing.Leads (.pushed verdict answer) after)
    (hmeet : e.meet (.pushed verdict answer) = some f) (hopen : e.outbox.isClosed = false)
    (hs : standing.Fits e.outbox.size) :
    answer = .ok 1 ∧ after.Fits 1 ∧ e.outbox.queue = [] ∧
      f = { e with outbox := e.outbox.append verdict } := by
  cases h
  obtain ⟨⟨hsize, htidy, -⟩, hsmooth⟩ := hs
  have hempty : e.outbox.queue = [] := List.eq_nil_of_length_eq_zero hsize
  have htaken := Delivery.Outbox.push_of_empty hopen hempty verdict
  rcases Surroundings.push_of_meet hmeet with ⟨box, hpush, rfl, rfl⟩ | ⟨reason, hpush, -, -⟩
  · rw [htaken] at hpush
    cases hpush
    rw [Delivery.Outbox.size_append_of_empty hempty verdict]
    exact ⟨rfl, ⟨htidy, hsmooth⟩, hempty, rfl⟩
  · rw [htaken] at hpush
    cases hpush

lemma Leads.fits_pop {verdict : Option Verdict} (h : standing.Leads (.popped verdict) after)
    (hmeet : e.meet (.popped verdict) = some f) (hs : standing.Fits e.outbox.size) :
    after.Fits f.outbox.size ∧ f.outbox.isClosed = e.outbox.isClosed ∧
      e.outbox.queue = verdict.toList ++ f.outbox.queue := by
  cases h
  obtain ⟨htidy, hsmooth⟩ := hs
  rcases Surroundings.pop_of_meet hmeet with ⟨hpop, rfl, rfl⟩ | ⟨oldest, box, hpop, rfl, rfl⟩
  · have hnil := Delivery.Outbox.queue_of_pop_eq_none hpop
    have hsize : f.outbox.size = 0 := congrArg List.length hnil
    rw [hsize] at htidy ⊢
    exact ⟨⟨htidy, hsmooth none⟩, rfl, rfl⟩
  · have hqueue := Delivery.Outbox.queue_of_pop hpop
    have hsize : e.outbox.size = box.size + 1 := congrArg List.length hqueue
    rw [hsize] at htidy
    exact ⟨⟨htidy oldest, hsmooth _⟩, Delivery.Outbox.isClosed_of_pop hpop, hqueue⟩

/-- All other steps of a run keep what is in the outbox. -/
lemma Leads.fits_of_ne (h : standing.Leads stride after) (hs : standing.Fits n)
    (hpush : ∀ verdict answer, stride ≠ .pushed verdict answer)
    (hpop : ∀ verdict, stride ≠ .popped verdict) :
    after.Fits n ∧ stride.IsSmooth ∧ stride.pushed? = none ∧ stride.popped? = none := by
  cases h with
  | start won => exact ⟨⟨hs.1 won, hs.2 won⟩, trivial, rfl, rfl⟩
  | look disposed => exact ⟨⟨hs.1 disposed, hs.2 disposed⟩, trivial, rfl, rfl⟩
  | tell notice => exact ⟨⟨hs.1, hs.2.2⟩, hs.2.1.1, rfl, rfl⟩
  | enterBody =>
    obtain ⟨⟨rfl, htidy⟩, hsmooth⟩ := hs
    exact ⟨⟨rfl, fun output => ⟨htidy output, hsmooth output⟩⟩, trivial, rfl, rfl⟩
  | sendBody =>
    obtain ⟨⟨rfl, htidy⟩, hsmooth⟩ := hs
    exact ⟨⟨rfl, fun output => ⟨htidy _, hsmooth _⟩⟩, trivial, rfl, rfl⟩
  | refuseBody =>
    obtain ⟨⟨rfl, htidy⟩, hsmooth⟩ := hs
    exact ⟨⟨htidy none, hsmooth none⟩, trivial, rfl, rfl⟩
  | enterPredicate =>
    obtain ⟨⟨rfl, htidy⟩, hsmooth⟩ := hs
    exact ⟨⟨rfl, fun again => ⟨htidy again, hsmooth again⟩⟩, trivial, rfl, rfl⟩
  | leaveBody output =>
    obtain ⟨rfl, hrest⟩ := hs
    exact ⟨⟨(hrest output).tidy, (hrest output).smooth⟩, trivial, rfl, rfl⟩
  | leavePredicate again =>
    obtain ⟨rfl, hrest⟩ := hs
    exact ⟨⟨(hrest again).tidy, (hrest again).smooth⟩, trivial, rfl, rfl⟩
  | readClock now => exact ⟨⟨hs.1 now, hs.2 now⟩, trivial, rfl, rfl⟩
  | sleep | wait => exact ⟨hs, trivial, rfl, rfl⟩
  | push verdict answer => exact absurd rfl (hpush verdict answer)
  | pop verdict => exact absurd rfl (hpop verdict)
  | enterCallback =>
    obtain ⟨⟨rfl, htidy⟩, hsmooth⟩ := hs
    exact ⟨⟨rfl, htidy, hsmooth⟩, trivial, rfl, rfl⟩
  | missCallback =>
    obtain ⟨⟨rfl, htidy⟩, hsmooth⟩ := hs
    exact ⟨⟨htidy, hsmooth⟩, trivial, rfl, rfl⟩
  | leaveCallback =>
    obtain ⟨rfl, hrest⟩ := hs
    exact ⟨⟨hrest.tidy, hrest.smooth⟩, trivial, rfl, rfl⟩

end Standing

namespace Race

variable {r s : Race} {stride : Stride} {strides : List Stride}

/-- The outbox of a run is open, and the run knows how much is in it. -/
structure Fits (r : Race) : Prop where
  isOpen : r.around.outbox.isClosed = false
  standing : r.standing.Fits r.around.outbox.size

lemma fits_begin (plan : Plan) (manner : Manner) (shared : SharedHandle) :
    (begin plan manner shared).Fits :=
  ⟨rfl, Course.tidy_course plan manner, Course.smooth_course plan manner⟩

/-- What is in the outbox and what is put there is what is taken out and what is there in the end. -/
def Balanced (r s : Race) (strides : List Stride) : Prop :=
  r.around.outbox.queue ++ strides.filterMap Stride.pushed? =
    strides.filterMap Stride.popped? ++ s.around.outbox.queue

/-- A step, of the run or of another thread, is smooth and leaves the outbox as the run knows it. -/
lemma Fits.step (hr : r.Fits) (h : r.step stride = some s) :
    s.Fits ∧ stride.IsSmooth ∧ r.Balanced s [stride] := by
  obtain ⟨hopen, hfits⟩ := hr
  unfold Balanced
  rcases step_cases h with ⟨thread, shared, rfl, -, rfl⟩ | ⟨hlead, hmeet⟩
  · refine ⟨⟨hopen, hfits⟩, trivial, ?_⟩
    exact List.append_nil _
  -- A run knows what it does to the outbox; all other steps leave that alone.
  by_cases hpush : ∃ verdict answer, stride = .pushed verdict answer
  · obtain ⟨verdict, answer, rfl⟩ := hpush
    obtain ⟨rfl, hafter, hempty, hbox⟩ := hlead.fits_push hmeet hopen hfits
    refine ⟨⟨?_, ?_⟩, rfl, ?_⟩
    · rw [hbox]
      exact hopen
    · rw [hbox]
      dsimp only
      rw [Delivery.Outbox.size_append_of_empty hempty]
      exact hafter
    · rw [hbox]
      rfl
  by_cases hpop : ∃ verdict, stride = .popped verdict
  · obtain ⟨verdict, rfl⟩ := hpop
    obtain ⟨hafter, hclosed, hqueue⟩ := hlead.fits_pop hmeet hfits
    refine ⟨⟨hclosed.trans hopen, hafter⟩, trivial, ?_⟩
    rw [hqueue]
    cases verdict with
    | none => exact List.append_nil _
    | some verdict => exact List.append_nil _
  · have hne (verdict answer) : stride ≠ .pushed verdict answer := fun heq => hpush ⟨_, _, heq⟩
    have hne' (verdict) : stride ≠ .popped verdict := fun heq => hpop ⟨_, heq⟩
    obtain ⟨hafter, hsmooth, hpushed, hpopped⟩ := hlead.fits_of_ne hfits hne hne'
    have hbox := Surroundings.outbox_of_meet hmeet hne hne'
    refine ⟨⟨?_, ?_⟩, hsmooth, ?_⟩
    · rw [hbox]
      exact hopen
    · rw [hbox]
      exact hafter
    · rw [hbox, List.filterMap_cons_none hpushed, List.filterMap_cons_none hpopped]
      exact List.append_nil _

theorem Fits.follow (hr : r.Fits) (h : r.follow strides = some s) :
    s.Fits ∧ (∀ stride ∈ strides, stride.IsSmooth) ∧ r.Balanced s strides := by
  induction strides generalizing r with
  | nil =>
    cases h
    exact ⟨hr, nofun, List.append_nil _⟩
  | cons stride strides ih =>
    obtain ⟨t, hstep, hrest⟩ := follow_cons_eq_some h
    obtain ⟨ht, hsmooth, hfirst⟩ := hr.step hstep
    obtain ⟨hs, hothers, hlater⟩ := ih ht hrest
    refine ⟨hs, ?_, ?_⟩
    · intro other hother
      rcases List.mem_cons.mp hother with rfl | hother
      · exact hsmooth
      · exact hothers other hother
    · unfold Balanced at hfirst hlater ⊢
      have hsplit (f : Stride → Option Verdict) : (stride :: strides).filterMap f =
          [stride].filterMap f ++ strides.filterMap f := by
        rw [← List.filterMap_append]
        rfl
      rw [hsplit, hsplit, ← List.append_assoc, hfirst, List.append_assoc, hlater,
        List.append_assoc]

/-- What a run among other threads finds of its outbox: it is open and empty where a delivery
begins, and three steps of the run, if no disposal comes in between, lead the verdict through it; it
is empty where a verdict is pushed, and the run can go on at once. -/
structure Delivers (r : Race) : Prop where
  deliver : ∀ p verdict, r.standing = .before (.deliver p verdict) →
    r.around.outbox.isClosed = false ∧ r.around.outbox.queue = [] ∧ (r.isDisposed = false →
      r.follow [.looked false, .pushed verdict (.ok 1), .popped (some verdict)] =
        some { r with standing := .before (.handOver p verdict) })
  push : ∀ verdict next, r.standing = .before (.push verdict next) →
    r.around.outbox.queue = [] ∧ r.step (.pushed verdict (.ok 1)) =
      some ⟨{ r.around with outbox := r.around.outbox.append verdict }, .before (next (.ok 1))⟩

/-- The outbox is empty where a verdict is pushed, and the run can go on at once. -/
lemma Fits.push (hr : r.Fits) {verdict : Verdict} {next : Except Delivery.Refusal Nat → Course}
    (hstanding : r.standing = .before (.push verdict next)) :
    r.around.outbox.queue = [] ∧ r.step (.pushed verdict (.ok 1)) =
      some ⟨{ r.around with outbox := r.around.outbox.append verdict }, .before (next (.ok 1))⟩ := by
  obtain ⟨hopen, hfits⟩ := hr
  rw [hstanding] at hfits
  have hempty : r.around.outbox.queue = [] := List.eq_nil_of_length_eq_zero hfits.1.1
  refine ⟨hempty, ?_⟩
  obtain ⟨around, standing⟩ := r
  obtain rfl : standing = .before (.push verdict next) := hstanding
  have htaken := Surroundings.meet_accepted (Delivery.Outbox.push_of_empty hopen hempty verdict)
  rw [Delivery.Outbox.size_append_of_empty hempty] at htaken
  exact step_own rfl (if_pos rfl) htaken

theorem Fits.delivers (hr : r.Fits) : r.Delivers where
  deliver p verdict hstanding := by
    have hfits := hr.standing
    rw [hstanding] at hfits
    have hempty : r.around.outbox.queue = [] := List.eq_nil_of_length_eq_zero (hfits.1 false).1
    refine ⟨hr.isOpen, hempty, fun hlive => ?_⟩
    obtain ⟨around, standing⟩ := r
    obtain rfl : standing = .before (.deliver p verdict) := hstanding
    have hasked : Race.step ⟨around, .before (.deliver p verdict)⟩ (.looked false) =
        some ⟨around, .before (.push verdict (.afterPush p))⟩ := step_own rfl rfl (if_pos hlive)
    obtain ⟨-, hpushed⟩ := Fits.push (hr.step hasked).1 rfl
    have hback :=
      Surroundings.meet_popped (e := { around with outbox := around.outbox.append verdict })
        (Delivery.Outbox.pop_append_of_empty hempty verdict)
    rw [follow_cons, hasked, Option.bind_some, follow_cons, hpushed, Option.bind_some, follow_cons,
      Course.afterPush, Course.drain_one, step_own rfl rfl hback]
    rfl
  push verdict next hstanding := hr.push hstanding

/-- A run that is over has left nothing in its outbox. -/
lemma Fits.queue_of_isOver (hr : r.Fits) (hover : r.IsOver) : r.around.outbox.queue = [] := by
  have hfits := hr.standing
  rw [IsOver] at hover
  rw [hover] at hfits
  exact List.eq_nil_of_length_eq_zero hfits.1

end Race

end Redial
