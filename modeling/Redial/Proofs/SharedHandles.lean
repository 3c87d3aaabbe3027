import Mathlib.Tactic.Lemma
import Redial.Handle.Shared

/-!
# The life of a shared handle

Any number of threads start, dispose and look at one handle, and their steps come in any order. The
first thread to swap wins: it alone gives the signal and announces the end, each once, and no start
succeeds after its swap. All answers are those that the threads would get if they made their whole
uses one after the other, in the order of their first steps.
-/

namespace Redial

/-- What a thread is about to do with a shared handle. -/
inductive HandleRequest where
  | start
  | dispose
  | look
  deriving DecidableEq

/-- The use of a thread that has not made a step yet. -/
def HandleRequest.use : HandleRequest → HandleUse
  | start => .starting
  | dispose => .disposing
  | look => .looking

/-- The ways a handle can go. -/
inductive HandleState.Advances : HandleState → HandleState → Prop where
  | start : Advances idle running
  | dispose : Advances running disposed
  | giveUp : Advances idle disposed

lemma HandleState.Advances.ne_idle {before after : HandleState} (h : before.Advances after) :
    after ≠ .idle := by
  cases h with
  | start | dispose | giveUp => nofun

namespace HandleUse

/-- It has not made a step yet. -/
def isFresh : HandleUse → Bool
  | starting | disposing | looking => true
  | _ => false

/-- It is a disposal that has swapped the state. -/
def hasSwapped : HandleUse → Bool
  | owesSignal | owesAnnouncement | disposed _ => true
  | _ => false

/-- What the use comes to in the end: a thread that owes the signal or the announcement has swapped
first. -/
def outcome : HandleUse → HandleUse
  | owesSignal | owesAnnouncement => disposed true
  | use => use

lemma outcome_of_isFresh {use : HandleUse} (h : use.isFresh = true) : use.outcome = use := by
  cases use with
  | owesSignal | owesAnnouncement => cases h
  | starting | started | disposing | disposed | looking | saw => rfl

lemma outcome_ne_of_hasSwapped {use : HandleUse} (h : use.hasSwapped = false) :
    use.outcome ≠ disposed true := by
  cases use with
  | owesSignal | owesAnnouncement | disposed => cases h
  | starting | started | disposing | looking | saw => nofun

lemma outcome_of_isDisposing {use : HandleUse} (h : use.isDisposing = false) :
    use.outcome = use := by
  cases use with
  | owesSignal | owesAnnouncement => cases h
  | starting | started | disposing | disposed | looking | saw => rfl

end HandleUse

lemma HandleRequest.isFresh_use (request : HandleRequest) : request.use.isFresh = true := by
  cases request <;> rfl

/-- After a thread has got a new use, any use is the new one or an old one of another thread. -/
lemma HandleUse.of_set {uses : List HandleUse} {i j : Nat} {next other : HandleUse}
    (h : (uses.set i next)[j]? = some other) :
    (j = i ∧ other = next) ∨ (j ≠ i ∧ uses[j]? = some other) := by
  rw [List.getElem?_set] at h
  by_cases hij : i = j
  · rw [if_pos hij] at h
    split at h
    · exact Or.inl ⟨hij.symm, (Option.some.inj h).symm⟩
    · cases h
  · rw [if_neg hij] at h
    exact Or.inr ⟨Ne.symm hij, h⟩

namespace SharedHandle

/-- A step of thread `i`: one rule for each of the ways it can go. -/
inductive Steps (s : SharedHandle) (i : Nat) : SharedHandle → Prop where
  | start (huse : s.uses[i]? = some .starting) :
      s.Steps i { s with
        handle := s.handle.start.2
        uses := s.uses.set i (.started s.handle.start.1) }
  | swap (huse : s.uses[i]? = some .disposing) (hlive : s.handle.state ≠ .disposed) :
      s.Steps i { s with
        handle := { s.handle with state := .disposed }
        uses := s.uses.set i .owesSignal }
  | late (huse : s.uses[i]? = some .disposing) (hdisposed : s.handle.state = .disposed) :
      s.Steps i { s with uses := s.uses.set i (.disposed false) }
  | signal (huse : s.uses[i]? = some .owesSignal) :
      s.Steps i { s with
        handle := s.handle.signal
        uses := s.uses.set i .owesAnnouncement
        signals := i :: s.signals }
  | announce (huse : s.uses[i]? = some .owesAnnouncement) :
      s.Steps i { s with
        uses := s.uses.set i (.disposed true)
        announcements := i :: s.announcements }
  | look (huse : s.uses[i]? = some .looking) :
      s.Steps i { s with uses := s.uses.set i (.saw s.handle.state) }

variable {s t : SharedHandle} {i j w : Nat} {use next : HandleUse}

theorem steps_of_step (h : s.step i = some t) : s.Steps i t := by
  unfold step at h
  cases huse : s.uses[i]? with
  | none =>
    rw [huse] at h
    cases h
  | some use =>
    rw [huse] at h
    cases use with
    | starting =>
      cases h
      exact .start huse
    | disposing =>
      unfold Handle.swap at h
      cases hstate : s.handle.state with
      | disposed =>
        rw [hstate] at h
        cases h
        have hsame : { s.handle with state := .disposed } = s.handle := by rw [← hstate]
        rw [hsame]
        exact .late huse hstate
      | idle | running =>
        rw [hstate] at h
        cases h
        exact .swap huse (by simp [hstate])
    | owesSignal =>
      cases h
      exact .signal huse
    | owesAnnouncement =>
      cases h
      exact .announce huse
    | looking =>
      cases h
      exact .look huse
    | started | disposed | saw => cases h

lemma step_of_steps (h : s.Steps i t) : s.step i = some t := by
  unfold step
  cases h with
  | start huse | signal huse | announce huse | look huse =>
    rw [huse]
    rfl
  | swap huse hlive =>
    rw [huse]
    unfold Handle.swap
    cases hstate : s.handle.state with
    | disposed => exact absurd hstate hlive
    | idle | running => rfl
  | late huse hdisposed =>
    have hsame : { s.handle with state := .disposed } = s.handle := by rw [← hdisposed]
    rw [huse]
    unfold Handle.swap
    rw [hdisposed, hsame]
    rfl

/-- A thread that has not made a step yet can make one. -/
lemma exists_step_of_isFresh (huse : s.uses[i]? = some use) (hfresh : use.isFresh = true) :
    ∃ t, s.step i = some t := by
  unfold step
  rw [huse]
  cases use with
  | starting | looking => exact ⟨_, rfl⟩
  | disposing =>
    dsimp only
    split
    · exact ⟨_, rfl⟩
    · exact ⟨_, rfl⟩
  | started | owesSignal | owesAnnouncement | disposed | saw => cases hfresh

lemma follow_cons (s : SharedHandle) (i : Nat) (schedule : List Nat) :
    s.follow (i :: schedule) = ((s.step i).getD s).follow schedule := rfl

lemma follow_append (s : SharedHandle) (first later : List Nat) :
    s.follow (first ++ later) = (s.follow first).follow later := List.foldl_append

/-- What every step preserves holds wherever a schedule leads. -/
theorem follow_induction {P : SharedHandle → Prop}
    (hstep : ∀ s t i, P s → s.Steps i t → P t) (h : P s) (schedule : List Nat) :
    P (s.follow schedule) := by
  induction schedule generalizing s with
  | nil => exact h
  | cons i schedule ih =>
    rw [follow_cons]
    apply ih
    cases hnext : s.step i with
    | none => exact h
    | some t => exact hstep s t i h (steps_of_step hnext)

/-- A handle that is disposed stays so, and one that is not idle does not become idle. -/
theorem Steps.advances (h : s.Steps i t) :
    t.handle.state = s.handle.state ∨ s.handle.state.Advances t.handle.state := by
  cases h with
  | start huse =>
    dsimp only
    unfold Handle.start
    by_cases hidle : s.handle.state = .idle
    · rw [if_pos hidle, hidle]
      exact Or.inr .start
    · rw [if_neg hidle]
      exact Or.inl rfl
  | swap huse hlive =>
    dsimp only
    cases hstate : s.handle.state with
    | idle => exact Or.inr .giveUp
    | running => exact Or.inr .dispose
    | disposed => exact absurd hstate hlive
  | late | signal | announce | look => exact Or.inl rfl

lemma Steps.ne_idle (h : s.Steps i t) (hidle : s.handle.state ≠ .idle) :
    t.handle.state ≠ .idle := by
  intro hback
  rcases h.advances with hsame | hadvances
  · exact hidle (hsame.symm.trans hback)
  · exact hadvances.ne_idle hback

/-- A start succeeds only by its own step, on a handle that is idle. -/
theorem Steps.started (h : s.Steps i t) (hj : t.uses[j]? = some (.started true)) :
    s.uses[j]? = some (.started true) ∨
      (j = i ∧ s.handle.state = .idle ∧ t.handle.state = .running) := by
  cases h with
  | start huse =>
    rcases HandleUse.of_set hj with ⟨rfl, hwon⟩ | ⟨-, hold⟩
    · have hidle : s.handle.state = .idle :=
        (Handle.start_fst_eq_true_iff _).mp (HandleUse.started.inj hwon).symm
      refine Or.inr ⟨rfl, hidle, ?_⟩
      unfold Handle.start
      rw [if_pos hidle]
    · exact Or.inl hold
  | swap | late | signal | announce | look =>
    rcases HandleUse.of_set hj with ⟨-, hnext⟩ | ⟨-, hold⟩
    · cases hnext
    · exact Or.inl hold

/-- One start at most has succeeded, and none while the handle is still idle. -/
structure StartedOnce (s : SharedHandle) : Prop where
  idle : s.handle.state = .idle → ∀ i : Nat, s.uses[i]? ≠ some (.started true)
  once : ∀ i j : Nat, s.uses[i]? = some (.started true) → s.uses[j]? = some (.started true) → i = j

theorem StartedOnce.steps (hs : s.StartedOnce) (h : s.Steps i t) : t.StartedOnce := by
  constructor
  · intro hidle j hj
    rcases h.started hj with hold | ⟨-, -, hrunning⟩
    · by_cases hwas : s.handle.state = .idle
      · exact hs.idle hwas j hold
      · exact h.ne_idle hwas hidle
    · rw [hidle] at hrunning
      cases hrunning
  · intro j k hj hk
    rcases h.started hj with hj | ⟨rfl, hidle, -⟩
    · rcases h.started hk with hk | ⟨rfl, hidle, -⟩
      · exact hs.once j k hj hk
      · exact absurd hj (hs.idle hidle j)
    · rcases h.started hk with hk | ⟨rfl, -, -⟩
      · exact absurd hk (hs.idle hidle k)
      · rfl

/-- Nobody has swapped the state yet. -/
structure Untouched (s : SharedHandle) : Prop where
  live : s.handle.state ≠ .disposed
  unsignalled : s.handle.signalled = false
  uses : ∀ (i : Nat) (use : HandleUse), s.uses[i]? = some use → use.hasSwapped = false
  signals : s.signals = []
  announcements : s.announcements = []

/-- Thread `w` swapped first; the others that have swapped came too late. The signal and the
announcement are those that thread `w` does not owe any more. -/
structure WonBy (w : Nat) (s : SharedHandle) : Prop where
  disposed : s.handle.state = .disposed
  others : ∀ (i : Nat) (use : HandleUse), s.uses[i]? = some use → i ≠ w →
    use.outcome ≠ .disposed true
  winner :
    (s.uses[w]? = some .owesSignal ∧ s.handle.signalled = false ∧ s.signals = [] ∧
      s.announcements = []) ∨
    (s.uses[w]? = some .owesAnnouncement ∧ s.handle.signalled = true ∧ s.signals = [w] ∧
      s.announcements = []) ∨
    (s.uses[w]? = some (.disposed true) ∧ s.handle.signalled = true ∧ s.signals = [w] ∧
      s.announcements = [w])

/-- The first swap makes its thread the winner. -/
theorem Untouched.steps (hs : s.Untouched) (h : s.Steps i t) : t.Untouched ∨ t.WonBy i := by
  have hkeep {next : HandleUse} (hnext : next.hasSwapped = false) (j : Nat) (use : HandleUse)
      (hj : (s.uses.set i next)[j]? = some use) : use.hasSwapped = false := by
    rcases HandleUse.of_set hj with ⟨-, rfl⟩ | ⟨-, hold⟩
    · exact hnext
    · exact hs.uses j use hold
  cases h with
  | start huse =>
    refine Or.inl ⟨?_, ?_, hkeep rfl, hs.signals, hs.announcements⟩
    · intro hdisposed
      have hstart := s.handle.isDisposed_start
      exact hs.live (of_decide_eq_true (hstart.symm.trans (decide_eq_true hdisposed)))
    · dsimp only
      unfold Handle.start
      split
      · exact hs.unsignalled
      · exact hs.unsignalled
  | swap huse hlive =>
    refine Or.inr ⟨rfl, ?_, ?_⟩
    · intro j use hj hne houtcome
      rcases HandleUse.of_set hj with ⟨hji, -⟩ | ⟨-, hold⟩
      · exact hne hji
      · exact HandleUse.outcome_ne_of_hasSwapped (hs.uses j use hold) houtcome
    · have hlt : i < s.uses.length := (List.getElem?_eq_some_iff.mp huse).1
      exact Or.inl ⟨List.getElem?_set_self hlt, hs.unsignalled, hs.signals, hs.announcements⟩
  | late huse hdisposed => exact absurd hdisposed hs.live
  | signal huse | announce huse => cases hs.uses i _ huse
  | look huse =>
    exact Or.inl ⟨hs.live, hs.unsignalled, hkeep rfl, hs.signals, hs.announcements⟩

namespace WonBy

/-- The winner has swapped. -/
lemma exists_use (hs : s.WonBy w) : ∃ use, s.uses[w]? = some use ∧ use.hasSwapped = true := by
  rcases hs.winner with ⟨huse, -⟩ | ⟨huse, -⟩ | ⟨huse, -⟩
  · exact ⟨_, huse, rfl⟩
  · exact ⟨_, huse, rfl⟩
  · exact ⟨_, huse, rfl⟩

lemma ne_of_hasSwapped (hs : s.WonBy w) (huse : s.uses[i]? = some use)
    (hlate : use.hasSwapped = false) : i ≠ w := by
  rintro rfl
  obtain ⟨won, hwon, hswapped⟩ := hs.exists_use
  rw [huse] at hwon
  cases hwon
  rw [hlate] at hswapped
  cases hswapped

/-- A thread that does not win changes nothing but its own use. -/
lemma set (hs : s.WonBy w) (hne : i ≠ w) (hnext : next.outcome ≠ .disposed true) :
    WonBy w { s with uses := s.uses.set i next } where
  disposed := hs.disposed
  others j use hj hjw := by
    rcases HandleUse.of_set hj with ⟨-, rfl⟩ | ⟨-, hold⟩
    · exact hnext
    · exact hs.others j use hold hjw
  winner := by
    dsimp only
    rw [List.getElem?_set_ne hne]
    exact hs.winner

/-- Once a thread has won, it stays the winner, and it alone pays what it owes. -/
theorem steps (hs : s.WonBy w) (h : s.Steps i t) : t.WonBy w := by
  have hothers {next : HandleUse} (j : Nat) (use : HandleUse)
      (hj : (s.uses.set w next)[j]? = some use) (hjw : j ≠ w) : use.outcome ≠ .disposed true := by
    rcases HandleUse.of_set hj with ⟨hjw', -⟩ | ⟨-, hold⟩
    · exact absurd hjw' hjw
    · exact hs.others j use hold hjw
  cases h with
  | start huse =>
    have hstart : s.handle.start = (false, s.handle) := by
      unfold Handle.start
      rw [if_neg (by simp [hs.disposed])]
    rw [hstart]
    exact hs.set (hs.ne_of_hasSwapped huse rfl) (by nofun)
  | swap huse hlive => exact absurd hs.disposed hlive
  | late huse => exact hs.set (hs.ne_of_hasSwapped huse rfl) (by nofun)
  | look huse => exact hs.set (hs.ne_of_hasSwapped huse rfl) (by nofun)
  | signal huse =>
    by_cases hiw : i = w
    · subst hiw
      have hlt : i < s.uses.length := (List.getElem?_eq_some_iff.mp huse).1
      rcases hs.winner with ⟨-, -, hsignals, hannouncements⟩ | ⟨hwon, -⟩ | ⟨hwon, -⟩
      · refine ⟨hs.disposed, hothers, Or.inr (Or.inl ⟨List.getElem?_set_self hlt, rfl, ?_, ?_⟩)⟩
        · rw [hsignals]
        · exact hannouncements
      · rw [huse] at hwon
        cases hwon
      · rw [huse] at hwon
        cases hwon
    · exact absurd rfl (hs.others i _ huse hiw)
  | announce huse =>
    by_cases hiw : i = w
    · subst hiw
      have hlt : i < s.uses.length := (List.getElem?_eq_some_iff.mp huse).1
      rcases hs.winner with ⟨hwon, -⟩ | ⟨-, hsignalled, hsignals, hannouncements⟩ | ⟨hwon, -⟩
      · rw [huse] at hwon
        cases hwon
      · refine ⟨hs.disposed, hothers,
          Or.inr (Or.inr ⟨List.getElem?_set_self hlt, hsignalled, hsignals, ?_⟩)⟩
        rw [hannouncements]
      · rw [huse] at hwon
        cases hwon
    · exact absurd rfl (hs.others i _ huse hiw)

end WonBy

/-- Either nobody has swapped the state yet, or one thread has won. -/
def Decided (s : SharedHandle) : Prop := s.Untouched ∨ ∃ w, s.WonBy w

theorem Decided.steps (hs : s.Decided) (h : s.Steps i t) : t.Decided := by
  rcases hs with huntouched | ⟨w, hwon⟩
  · rcases huntouched.steps h with hstill | hwins
    · exact Or.inl hstill
    · exact Or.inr ⟨i, hwins⟩
  · exact Or.inr ⟨w, hwon.steps h⟩

/-- When nobody is in the middle of a disposal, the winner has paid all it owed. -/
lemma WonBy.paid (hs : s.WonBy w) (hquiet : s.anyDisposing = false) :
    s.uses[w]? = some (.disposed true) ∧ s.handle.signalled = true ∧ s.signals = [w] ∧
      s.announcements = [w] := by
  have hdone {use : HandleUse} (huse : s.uses[w]? = some use) : use.isDisposing = false := by
    unfold anyDisposing at hquiet
    rw [List.any_eq_false] at hquiet
    exact Bool.eq_false_iff.mpr (hquiet use (List.mem_of_getElem? huse))
  rcases hs.winner with ⟨huse, -⟩ | ⟨huse, -⟩ | hpaid
  · cases hdone huse
  · cases hdone huse
  · exact hpaid

/-- The state is disposed if and only if somebody has swapped it. -/
lemma Decided.disposed_iff (hs : s.Decided) :
    s.handle.state = .disposed ↔ ∃ use ∈ s.uses, use.hasSwapped = true := by
  rcases hs with huntouched | ⟨w, hwon⟩
  · constructor
    · intro hdisposed
      exact absurd hdisposed huntouched.live
    · rintro ⟨use, hmem, hswapped⟩
      obtain ⟨i, hi⟩ := List.getElem?_of_mem hmem
      rw [huntouched.uses i use hi] at hswapped
      cases hswapped
  · constructor
    · intro _
      obtain ⟨use, huse, hswapped⟩ := hwon.exists_use
      exact ⟨use, List.mem_of_getElem? huse, hswapped⟩
    · intro _
      exact hwon.disposed

/-- There is no signal and no announcement before the state is disposed. -/
lemma Decided.disposed_of_told (hs : s.Decided)
    (htold : s.handle.signalled = true ∨ s.announcements ≠ []) : s.handle.state = .disposed := by
  rcases hs with huntouched | ⟨w, hwon⟩
  · rcases htold with hsignalled | hannounced
    · rw [huntouched.unsignalled] at hsignalled
      cases hsignalled
    · exact absurd huntouched.announcements hannounced
  · exact hwon.disposed

lemma Decided.signalled_iff (hs : s.Decided) (hquiet : s.anyDisposing = false) :
    s.handle.signalled = true ↔ s.handle.state = .disposed := by
  constructor
  · intro hsignalled
    exact hs.disposed_of_told (Or.inl hsignalled)
  · intro hdisposed
    rcases hs with huntouched | ⟨w, hwon⟩
    · exact absurd hdisposed huntouched.live
    · exact (hwon.paid hquiet).2.1

/-- The winner will be told that it was first, and nobody else will. -/
lemma WonBy.outcome_iff (hs : s.WonBy w) (i : Nat) :
    (s.uses[i]?).map HandleUse.outcome = some (.disposed true) ↔ i = w := by
  constructor
  · intro hi
    obtain ⟨use, huse, houtcome⟩ := Option.map_eq_some_iff.mp hi
    by_cases hiw : i = w
    · exact hiw
    · exact absurd houtcome (hs.others i use huse hiw)
  · rintro rfl
    rcases hs.winner with ⟨huse, -⟩ | ⟨huse, -⟩ | ⟨huse, -⟩
    · rw [huse]
      rfl
    · rw [huse]
      rfl
    · rw [huse]
      rfl

lemma WonBy.signals_cases (hs : s.WonBy w) : s.signals = [] ∨ s.signals = [w] := by
  rcases hs.winner with ⟨-, -, hnone, -⟩ | ⟨-, -, hone, -⟩ | ⟨-, -, hone, -⟩
  · exact Or.inl hnone
  · exact Or.inr hone
  · exact Or.inr hone

lemma WonBy.announcements_cases (hs : s.WonBy w) :
    s.announcements = [] ∨ s.announcements = [w] := by
  rcases hs.winner with ⟨-, -, -, hnone⟩ | ⟨-, -, -, hnone⟩ | ⟨-, -, -, hone⟩
  · exact Or.inl hnone
  · exact Or.inl hnone
  · exact Or.inr hone

theorem WonBy.follow (hs : s.WonBy w) (later : List Nat) : (s.follow later).WonBy w :=
  follow_induction (fun _ _ _ hs h => WonBy.steps hs h) hs later

/-- No start succeeds any more once the handle is not idle. -/
theorem started_of_follow (hidle : s.handle.state ≠ .idle) (later : List Nat)
    (hi : (s.follow later).uses[i]? = some (.started true)) : s.uses[i]? = some (.started true) := by
  let motive (t : SharedHandle) : Prop :=
    t.handle.state ≠ .idle ∧ (t.uses[i]? = some (.started true) → s.uses[i]? = some (.started true))
  have hlater : motive (s.follow later) := by
    refine follow_induction (fun t u k ht h => ⟨h.ne_idle ht.1, fun hu => ?_⟩) ⟨hidle, id⟩ later
    rcases h.started hu with hold | ⟨-, hnow, -⟩
    · exact ht.2 hold
    · exact absurd hnow ht.1
  exact hlater.2 hi

lemma step_eq_none (huse : s.uses[i]? = some use) (hdone : use.isFresh = false)
    (hpaid : use.isDisposing = false) : s.step i = none := by
  unfold step
  rw [huse]
  cases use with
  | started | disposed | saw => rfl
  | starting | disposing | looking => cases hdone
  | owesSignal | owesAnnouncement => cases hpaid

/-- A use that is over after one step. -/
lemma follow_of_single (h : s.Steps i t) (huse : t.uses[i]? = some use) (hdone : use.isFresh = false)
    (hpaid : use.isDisposing = false) : s.follow [i, i, i] = t := by
  have hnone : t.step i = none := step_eq_none huse hdone hpaid
  rw [follow_cons, step_of_steps h, Option.getD_some, follow_cons, hnone, Option.getD_none,
    follow_cons, hnone]
  rfl

/-- A disposal that takes all its steps at once. -/
lemma follow_of_disposal (huse : s.uses[i]? = some .disposing) (hlive : s.handle.state ≠ .disposed) :
    let t := s.follow [i, i, i]
    t.handle.state = .disposed ∧ t.uses = s.uses.set i (.disposed true) := by
  have hlt : i < s.uses.length := (List.getElem?_eq_some_iff.mp huse).1
  let swapped : SharedHandle := { s with
    handle := { s.handle with state := .disposed }
    uses := s.uses.set i .owesSignal }
  let signalled : SharedHandle := { swapped with
    handle := swapped.handle.signal
    uses := swapped.uses.set i .owesAnnouncement
    signals := i :: swapped.signals }
  have hswap : s.Steps i swapped := .swap huse hlive
  have hsignal : swapped.Steps i signalled := .signal (List.getElem?_set_self hlt)
  have hlast : signalled.Steps i _ :=
    .announce (List.getElem?_set_self (by simpa [swapped] using hlt))
  rw [follow_cons, step_of_steps hswap, Option.getD_some, follow_cons, step_of_steps hsignal,
    Option.getD_some, follow_cons, step_of_steps hlast]
  refine ⟨rfl, ?_⟩
  show signalled.uses.set i (.disposed true) = s.uses.set i (.disposed true)
  rw [List.set_set, List.set_set]

/-- The threads of a schedule, in the order of their first steps. -/
def turns (s : SharedHandle) (schedule : List Nat) : List Nat :=
  (schedule.filter (· < s.uses.length)).eraseDups

/-- Three steps of each thread, which is enough for any use, one thread after the other. -/
def inTurn (order : List Nat) : List Nat := order.flatMap (List.replicate 3)

lemma turns_concat (s : SharedHandle) (past : List Nat) (i : Nat) :
    s.turns (past ++ [i]) =
      if i < s.uses.length ∧ i ∉ past then s.turns past ++ [i] else s.turns past := by
  unfold turns
  rw [List.filter_append, List.eraseDups_append]
  by_cases hlt : i < s.uses.length
  · by_cases hmem : i ∈ past
    · simp [hlt, hmem, List.removeAll]
    · simp [hlt, hmem, List.removeAll, List.eraseDups_cons]
  · simp [hlt]

lemma inTurn_concat (order : List Nat) (i : Nat) :
    inTurn (order ++ [i]) = inTurn order ++ [i, i, i] := by
  simp [inTurn, List.replicate]

/-- In `u` every thread that has made a step in `s` has made its whole use. -/
structure Foretells (u s : SharedHandle) : Prop where
  state : u.handle.state = s.handle.state
  uses : u.uses = s.uses.map HandleUse.outcome

namespace Foretells

variable {u : SharedHandle}

lemma use_eq (hu : u.Foretells s) (huse : s.uses[i]? = some use) :
    u.uses[i]? = some use.outcome := by
  rw [hu.uses, List.getElem?_map, huse]
  rfl

/-- A step after the first one of its thread does what the thread was going to do anyway. -/
lemma later (hu : u.Foretells s) (huse : s.uses[i]? = some use) (hbegun : use.isFresh = false)
    (h : s.Steps i t) : u.Foretells t := by
  have hkeep {next : HandleUse} (hnext : next.outcome = use.outcome) :
      u.uses = (s.uses.set i next).map HandleUse.outcome := by
    rw [hu.uses, List.map_set, hnext]
    apply List.ext_getElem?
    intro j
    rw [List.getElem?_set]
    by_cases hij : i = j
    · subst hij
      rw [if_pos rfl, List.getElem?_map, huse]
      simp [(List.getElem?_eq_some_iff.mp huse).1]
    · rw [if_neg hij]
  cases h with
  | start hnow | swap hnow | late hnow | look hnow =>
    rw [huse] at hnow
    cases hnow
    cases hbegun
  | signal hnow | announce hnow =>
    rw [huse] at hnow
    cases hnow
    exact ⟨hu.state, hkeep rfl⟩

/-- The first step of a thread decides its whole use. -/
lemma first (hu : u.Foretells s) (huse : s.uses[i]? = some use) (hfresh : use.isFresh = true)
    (h : s.Steps i t) : (u.follow [i, i, i]).Foretells t := by
  have hsame := hu.use_eq huse
  rw [HandleUse.outcome_of_isFresh hfresh] at hsame
  have hlt : i < u.uses.length := (List.getElem?_eq_some_iff.mp hsame).1
  have hset (next : HandleUse) : (u.uses.set i next)[i]? = some next := List.getElem?_set_self hlt
  have huses (next : HandleUse) :
      u.uses.set i next.outcome = (s.uses.set i next).map HandleUse.outcome := by
    rw [hu.uses, List.map_set]
  cases h with
  | start hnow =>
    rw [huse] at hnow
    cases hnow
    have hfirst : u.handle.start.1 = s.handle.start.1 := by
      unfold Handle.start
      rw [hu.state]
      split <;> rfl
    rw [follow_of_single (.start hsame) (hset _) rfl rfl, hfirst]
    refine ⟨?_, huses (.started s.handle.start.1)⟩
    dsimp only
    unfold Handle.start
    rw [hu.state]
    split
    · rfl
    · exact hu.state
  | late hnow hdisposed =>
    rw [huse] at hnow
    cases hnow
    rw [follow_of_single (.late hsame (hu.state.trans hdisposed)) (hset _) rfl rfl]
    exact ⟨hu.state, huses (.disposed false)⟩
  | look hnow =>
    rw [huse] at hnow
    cases hnow
    rw [follow_of_single (.look hsame) (hset _) rfl rfl, hu.state]
    exact ⟨hu.state, huses (.saw s.handle.state)⟩
  | swap hnow hlive =>
    rw [huse] at hnow
    cases hnow
    have hstill : u.handle.state ≠ .disposed := by
      rw [hu.state]
      exact hlive
    obtain ⟨hstate, hnext⟩ := follow_of_disposal hsame hstill
    exact ⟨hstate, hnext.trans (huses .owesSignal)⟩
  | signal hnow | announce hnow =>
    rw [huse] at hnow
    cases hnow
    cases hfresh

end Foretells

/-- A step is one of a thread that is not through, and gives it another use. -/
lemma Steps.exists_use (h : s.Steps i t) : ∃ use next, s.uses[i]? = some use ∧
    next.isFresh = false ∧ t.uses = s.uses.set i next := by
  cases h with
  | start huse | swap huse | late huse | signal huse | announce huse | look huse =>
    exact ⟨_, _, huse, rfl, rfl⟩

/-- A schedule comes to the same as the whole uses of its threads in turn, and the threads that have
not made a step yet are those that it does not name. -/
structure Serial (begun : SharedHandle) (schedule : List Nat) : Prop where
  length : (begun.follow schedule).uses.length = begun.uses.length
  fresh : ∀ (i : Nat) (use : HandleUse), (begun.follow schedule).uses[i]? = some use →
    (use.isFresh = true ↔ i ∉ schedule)
  foretells : (begun.follow (inTurn (begun.turns schedule))).Foretells (begun.follow schedule)

namespace Serial

variable {begun : SharedHandle} {past : List Nat}

lemma nil (h : ∀ use ∈ begun.uses, use.isFresh = true) : begun.Serial [] where
  length := rfl
  fresh i use huse := by
    have hfresh := h use (List.mem_of_getElem? huse)
    simp [hfresh]
  foretells := by
    refine ⟨rfl, ?_⟩
    have hsame : begun.uses.map HandleUse.outcome = begun.uses.map id :=
      List.map_congr_left fun use huse => HandleUse.outcome_of_isFresh (h use huse)
    rw [List.map_id] at hsame
    exact hsame.symm

lemma concat_of_step (h : begun.Serial past) (hstep : (begun.follow past).step i = some t) :
    begun.Serial (past ++ [i]) := by
  have hfollow : begun.follow (past ++ [i]) = t := by
    rw [follow_append, follow_cons, hstep]
    rfl
  have hsteps := steps_of_step hstep
  obtain ⟨use, next, huse, hnext, huses⟩ := hsteps.exists_use
  have hlt : i < begun.uses.length := by
    rw [← h.length]
    exact (List.getElem?_eq_some_iff.mp huse).1
  refine ⟨?_, ?_, ?_⟩
  · rw [hfollow, huses, List.length_set, h.length]
  · intro j other hj
    rw [hfollow, huses] at hj
    rcases HandleUse.of_set hj with ⟨rfl, rfl⟩ | ⟨hji, hold⟩
    · simp [hnext]
    · rw [h.fresh j other hold]
      simp [hji]
  · rw [hfollow, turns_concat]
    cases hfresh : use.isFresh with
    | true =>
      rw [if_pos ⟨hlt, (h.fresh i use huse).mp hfresh⟩, inTurn_concat, follow_append]
      exact h.foretells.first huse hfresh hsteps
    | false =>
      have hmem : i ∈ past := by
        by_cases hmem : i ∈ past
        · exact hmem
        · rw [(h.fresh i use huse).mpr hmem] at hfresh
          cases hfresh
      rw [if_neg (fun hnew => hnew.2 hmem)]
      exact h.foretells.later huse hfresh hsteps

lemma concat_of_none (h : begun.Serial past) (hstep : (begun.follow past).step i = none) :
    begun.Serial (past ++ [i]) := by
  have hfollow : begun.follow (past ++ [i]) = begun.follow past := by
    rw [follow_append, follow_cons, hstep]
    rfl
  have hmem (use : HandleUse) (huse : (begun.follow past).uses[i]? = some use) : i ∈ past := by
    by_cases hmem : i ∈ past
    · exact hmem
    · obtain ⟨t, ht⟩ := exists_step_of_isFresh huse ((h.fresh i use huse).mpr hmem)
      rw [hstep] at ht
      cases ht
  refine ⟨?_, ?_, ?_⟩
  · rw [hfollow, h.length]
  · intro j other hj
    rw [hfollow] at hj
    rw [h.fresh j other hj, List.mem_append, List.mem_singleton]
    by_cases hji : j = i
    · subst hji
      simp [hmem other hj]
    · simp [hji]
  · have hold : ¬ (i < begun.uses.length ∧ i ∉ past) := by
      rintro ⟨hlt, hnew⟩
      rw [← h.length] at hlt
      exact hnew (hmem _ (List.getElem?_eq_getElem hlt))
    rw [hfollow, turns_concat, if_neg hold]
    exact h.foretells

theorem append (h : begun.Serial past) (schedule : List Nat) :
    begun.Serial (past ++ schedule) := by
  induction schedule generalizing past with
  | nil =>
    rw [List.append_nil]
    exact h
  | cons i schedule ih =>
    have hsplit : past ++ i :: schedule = (past ++ [i]) ++ schedule := by simp
    rw [hsplit]
    apply ih
    cases hstep : (begun.follow past).step i with
    | none => exact h.concat_of_none hstep
    | some t => exact h.concat_of_step hstep

end Serial

/-- When nobody is in the middle of a disposal, the state and the answers tell everything else. -/
lemma Decided.eq_of_quiet {u : SharedHandle} (hu : u.Decided) (hs : s.Decided)
    (hstate : u.handle.state = s.handle.state) (huses : u.uses = s.uses)
    (hquiet : s.anyDisposing = false) : u = s := by
  have hquiet' : u.anyDisposing = false := by
    unfold anyDisposing
    rw [huses]
    exact hquiet
  obtain ⟨⟨state, signalled⟩, uses, signals, announcements⟩ := u
  obtain ⟨⟨state', signalled'⟩, uses', signals', announcements'⟩ := s
  obtain rfl : uses = uses' := huses
  obtain rfl : state = state' := hstate
  rcases hu with hu | ⟨w, hu⟩
  · rcases hs with hs | ⟨v, hs⟩
    · obtain ⟨-, rfl, -, rfl, rfl⟩ := hu
      obtain ⟨-, rfl, -, rfl, rfl⟩ := hs
      rfl
    · exact absurd hs.disposed hu.live
  · rcases hs with hs | ⟨v, hs⟩
    · exact absurd hu.disposed hs.live
    · obtain ⟨hwon, rfl, rfl, rfl⟩ := hu.paid hquiet'
      obtain ⟨hwon', rfl, rfl, rfl⟩ := hs.paid hquiet
      have hwv : w = v := by
        by_cases hwv : w = v
        · exact hwv
        · exact absurd rfl (hs.others w _ hwon hwv)
      rw [hwv]

/-- The handle before any thread has made a step. -/
def opened (requests : List HandleRequest) : SharedHandle := { uses := requests.map HandleRequest.use }

section Opened

variable (requests : List HandleRequest)

lemma isFresh_opened : ∀ use ∈ (opened requests).uses, use.isFresh = true := by
  intro use huse
  obtain ⟨request, -, rfl⟩ := List.mem_map.mp huse
  exact request.isFresh_use

lemma untouched_opened : (opened requests).Untouched where
  live := by nofun
  unsignalled := rfl
  uses i use huse := by
    obtain ⟨request, -, rfl⟩ := List.mem_map.mp (List.mem_of_getElem? huse)
    cases request <;> rfl
  signals := rfl
  announcements := rfl

lemma startedOnce_opened : (opened requests).StartedOnce := by
  have hnobody (i : Nat) : (opened requests).uses[i]? ≠ some (.started true) := by
    intro hwon
    have hfresh := isFresh_opened requests _ (List.mem_of_getElem? hwon)
    cases hfresh
  exact ⟨fun _ i => hnobody i, fun i _ hi => absurd hi (hnobody i)⟩

lemma decided_follow (schedule : List Nat) : ((opened requests).follow schedule).Decided :=
  follow_induction (fun _ _ _ hs h => Decided.steps hs h) (Or.inl (untouched_opened requests)) schedule

/-- The state of a handle that threads share goes from idle to running to disposed, or straight from
idle to disposed, and it is disposed when somebody has swapped it. One start at most succeeds, and
none any more after the swap. From the swap on one thread has won for good: it alone will be told
that it was first, gives the signal and announces the end, and it has done so, once, whenever nobody
is in the middle of a disposal. Before the swap there is neither signal nor announcement. Whatever
the schedule, the state and all answers are those of the whole uses in turn, in the order of
the first steps. -/
theorem shared_handle_is_serial (schedule : List Nat) :
    let s := (opened requests).follow schedule
    let alone := (opened requests).follow (inTurn ((opened requests).turns schedule))
    (∀ i t, s.step i = some t →
      t.handle.state = s.handle.state ∨ s.handle.state.Advances t.handle.state) ∧
    (∀ i j : Nat, s.uses[i]? = some (.started true) → s.uses[j]? = some (.started true) → i = j) ∧
    (s.handle.state = .disposed ↔ ∃ use ∈ s.uses, use.hasSwapped = true) ∧
    (s.handle.state = .disposed → ∃ w, ∀ later,
      let t := s.follow later
      (∀ i : Nat, t.uses[i]? = some (.started true) → s.uses[i]? = some (.started true)) ∧
      (∀ i : Nat, (t.uses[i]?).map HandleUse.outcome = some (.disposed true) ↔ i = w) ∧
      (t.signals = [] ∨ t.signals = [w]) ∧ (t.announcements = [] ∨ t.announcements = [w]) ∧
      (t.anyDisposing = false →
        t.uses[w]? = some (.disposed true) ∧ t.signals = [w] ∧ t.announcements = [w])) ∧
    (s.handle.signalled = true ∨ s.announcements ≠ [] → s.handle.state = .disposed) ∧
    (s.anyDisposing = false → (s.handle.signalled = true ↔ s.handle.state = .disposed)) ∧
    alone.handle.state = s.handle.state ∧ alone.uses = s.uses.map HandleUse.outcome ∧
    (s.anyDisposing = false → alone = s) := by
  intro s alone
  have hdecided : s.Decided := decided_follow requests schedule
  have hstarted : s.StartedOnce :=
    follow_induction (fun _ _ _ hs h => StartedOnce.steps hs h) (startedOnce_opened requests) schedule
  have hserial : alone.Foretells s := (Serial.nil (isFresh_opened requests)).append schedule |>.foretells
  refine ⟨fun i t hstep => (steps_of_step hstep).advances, hstarted.once, hdecided.disposed_iff, ?_,
    hdecided.disposed_of_told, hdecided.signalled_iff, hserial.state, hserial.uses, ?_⟩
  · intro hdisposed
    rcases hdecided with huntouched | ⟨w, hwon⟩
    · exact absurd hdisposed huntouched.live
    · refine ⟨w, fun later => ?_⟩
      have hlater := hwon.follow later
      refine ⟨fun i => started_of_follow (by simp [hdisposed]) later, hlater.outcome_iff,
        hlater.signals_cases, hlater.announcements_cases, fun hquiet => ?_⟩
      obtain ⟨huse, -, hsignals, hannouncements⟩ := hlater.paid hquiet
      exact ⟨huse, hsignals, hannouncements⟩
  · intro hquiet
    refine (decided_follow requests _).eq_of_quiet hdecided hserial.state ?_ hquiet
    rw [hserial.uses]
    have hsame : s.uses.map HandleUse.outcome = s.uses.map id := by
      apply List.map_congr_left
      intro use huse
      unfold anyDisposing at hquiet
      rw [List.any_eq_false] at hquiet
      exact HandleUse.outcome_of_isDisposing (Bool.eq_false_iff.mpr (hquiet use huse))
    rw [hsame, List.map_id]

/-- The second of four threads swaps; the third one is told that it came too late and the first one
cannot start, while the second one still owes everything. -/
theorem shared_handle_with_two_disposals :
    let requests : List HandleRequest := [.start, .dispose, .dispose, .look]
    let s := (opened requests).follow [1, 2, 0]
    s.uses = [.started false, .owesSignal, .disposed false, .looking] ∧
      s.handle.state = .disposed ∧ s.anyDisposing = true ∧ s.handle.signalled = false ∧
      ((opened requests).follow (inTurn ((opened requests).turns [1, 2, 0]))).uses =
        [.started false, .disposed true, .disposed false, .looking] ∧
      ∃ w, (s.follow [3, 1, 1]).signals = [w] ∧ (s.follow [3, 1, 1]).announcements = [w] := by
  intro requests s
  obtain ⟨-, -, -, hwinner, -, -, -, hserial, -⟩ := shared_handle_is_serial requests [1, 2, 0]
  have hdisposed : s.handle.state = .disposed := by decide
  obtain ⟨w, hw⟩ := hwinner hdisposed
  obtain ⟨-, -, -, -, hpaid⟩ := hw [3, 1, 1]
  have hquiet : (s.follow [3, 1, 1]).anyDisposing = false := by decide
  exact ⟨by decide, hdisposed, by decide, by decide, hserial.trans (by decide), w,
    (hpaid hquiet).2.1, (hpaid hquiet).2.2⟩

end Opened

end SharedHandle

end Redial
