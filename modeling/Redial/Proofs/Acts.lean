import Redial.Proofs.ExchangeSteps

/-!
# What a call does in its runs

The journal tells what every call does. The acts of a call are what its own runs do where others can
see it: they invoke its body and its callbacks and tell of events. That its handle is disposed is
told of as well, but it is not an act of its own, since anybody can dispose it.
-/

namespace Redial

/-- The kind of an event and the attempt that it names. -/
abbrev Heading := EventKind × Option Nat

/-- What a run does where others can see it. -/
inductive Act where
  | body
  | callback (verdict : Verdict)
  | event (heading : Heading)

/-- The body or a callback is invoked. -/
def Act.isWork : Act → Bool
  | .body | .callback _ => true
  | _ => false

/-- The act of call `c` that an entry tells of. -/
def Entry.act? (c : CallId) : Entry → Option Act
  | .invoked call _ => if call = c then some .body else none
  | .delivered call verdict => if call = c then some (.callback verdict) else none
  | .told call notice _ =>
    if call = c ∧ notice.kind ≠ .handleDisposed then some (.event (notice.kind, notice.attempt))
    else none
  | _ => none

namespace Exchange

/-- The acts of call `c` so far, oldest first. -/
def acts (x : Exchange) (c : CallId) : List Act := (x.journal.filterMap (Entry.act? c)).reverse

/-- How the body and the callbacks of call `c` have been invoked so far. -/
def works (x : Exchange) (c : CallId) : List Act := (x.acts c).filter Act.isWork

variable {x y : Exchange} {c d : CallId}

lemma acts_congr (h : y.journal = x.journal) (c : CallId) : y.acts c = x.acts c := by
  unfold acts
  rw [h]

lemma acts_note_of_none {entry : Entry} (h : entry.act? c = none) :
    (x.note entry).acts c = x.acts c := by
  unfold acts note
  rw [List.filterMap_cons_none h]

lemma acts_note_of_some {entry : Entry} {act : Act} (h : entry.act? c = some act) :
    (x.note entry).acts c = x.acts c ++ [act] := by
  unfold acts note
  rw [List.filterMap_cons_some h, List.reverse_cons]

/-- Publishing an event is telling of it, and nothing else. -/
lemma acts_tell_of_known {call : Call} (hcall : x.call? d = some call) (notice : Notice) :
    ∃ feed, (x.tell d notice).acts c =
      (x.note (.told d { notice with call := some call.plan.name } feed)).acts c := by
  unfold tell publish
  rw [hcall]
  dsimp only
  split
  case h_1 => exact ⟨none, rfl⟩
  case h_2 feed _ =>
    refine ⟨some (feed, x.nextSeq), ?_⟩
    split
    · apply acts_congr
      unfold countRetry
      split
      · split <;> rfl
      · rfl
    · rfl

lemma acts_tell_of_not {notice : Notice} (h : d ≠ c ∨ notice.kind = .handleDisposed) :
    (x.tell d notice).acts c = x.acts c := by
  cases hcall : x.call? d with
  | none =>
    rw [tell_of_unknown hcall]
  | some call =>
    obtain ⟨feed, hacts⟩ := acts_tell_of_known (c := c) hcall notice
    rw [hacts]
    apply acts_note_of_none
    apply if_neg
    rintro ⟨hdc, hkind⟩
    exact h.elim (absurd hdc) hkind

lemma acts_tell_self {call : Call} {notice : Notice} (hcall : x.call? c = some call)
    (hkind : notice.kind ≠ .handleDisposed) :
    (x.tell c notice).acts c = x.acts c ++ [.event (notice.kind, notice.attempt)] := by
  obtain ⟨feed, hacts⟩ := acts_tell_of_known (c := c) hcall notice
  rw [hacts]
  exact acts_note_of_some (if_pos ⟨rfl, hkind⟩)

lemma acts_dispose (x : Exchange) (d c : CallId) : (x.dispose d).2.acts c = x.acts c := by
  rw [dispose_eq_tell]
  split
  · rfl
  · dsimp only
    split
    · exact acts_tell_of_not (Or.inr rfl)
    · rfl

lemma works_congr (h : y.acts c = x.acts c) : y.works c = x.works c := by
  unfold works
  rw [h]

lemma works_note {entry : Entry} {act : Act} (h : entry.act? c = some act) :
    (x.note entry).works c = x.works c ++ [act].filter Act.isWork := by
  unfold works
  rw [acts_note_of_some h, List.filter_append]

lemma works_tell (x : Exchange) (d : CallId) (notice : Notice) (c : CallId) :
    (x.tell d notice).works c = x.works c := by
  cases hcall : x.call? d with
  | none =>
    rw [tell_of_unknown hcall]
  | some call =>
    obtain ⟨feed, hacts⟩ := acts_tell_of_known (c := c) hcall notice
    rw [works_congr hacts]
    by_cases htold : d = c ∧ notice.kind ≠ .handleDisposed
    · have hact : Entry.act? c (.told d { notice with call := some call.plan.name } feed) = _ :=
        if_pos htold
      rw [works_note hact]
      exact List.append_nil _
    · exact works_congr (acts_note_of_none (if_neg htold))

end Exchange

end Redial
