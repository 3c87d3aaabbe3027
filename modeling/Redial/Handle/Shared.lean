import Redial.Handle

/-!
# Handles shared by threads

Every thread makes one use of the same handle, and the steps of different threads come in any
order. Starting and looking are one step each. Disposing begins with the swap; the thread that
swapped first then gives the signal and at last announces the end, each in a step of its own.
-/

namespace Redial

/-- What a thread does with a shared handle, and how far it has come. -/
inductive HandleUse where
  | starting
  | started (won : Bool)
  | disposing
  | owesSignal
  | owesAnnouncement
  | disposed (first : Bool)
  | looking
  | saw (state : HandleState)
  deriving DecidableEq

namespace HandleUse

/-- A disposal has begun and is not over. -/
def isDisposing : HandleUse → Bool
  | owesSignal | owesAnnouncement => true
  | _ => false

end HandleUse

structure SharedHandle where
  handle : Handle := .fresh
  uses : List HandleUse
  /-- The threads that gave the signal, the latest first. -/
  signals : List Nat := []
  /-- The threads that announced the end, the latest first. -/
  announcements : List Nat := []
  deriving DecidableEq

namespace SharedHandle

def update (s : SharedHandle) (i : Nat) (use : HandleUse) : SharedHandle :=
  { s with uses := s.uses.set i use }

def step (s : SharedHandle) (i : Nat) : Option SharedHandle :=
  match s.uses[i]? with
  | some .starting =>
    let (won, handle) := s.handle.start
    some ({ s with handle }.update i (.started won))
  | some .disposing =>
    match s.handle.swap with
    | (.disposed, handle) => some ({ s with handle }.update i (.disposed false))
    | (_, handle) => some ({ s with handle }.update i .owesSignal)
  | some .owesSignal =>
    let handle := s.handle.signal
    some ({ s with handle, signals := i :: s.signals }.update i .owesAnnouncement)
  | some .owesAnnouncement =>
    some ({ s with announcements := i :: s.announcements }.update i (.disposed true))
  | some .looking => some (s.update i (.saw s.handle.state))
  | _ => none

/-- Follows a schedule; a thread without a step left is passed over. -/
def follow (s : SharedHandle) (schedule : List Nat) : SharedHandle :=
  schedule.foldl (fun s i => (s.step i).getD s) s

def anyDisposing (s : SharedHandle) : Bool := s.uses.any HandleUse.isDisposing

/-- A disposal that nobody disturbs is `Handle.dispose`. -/
theorem follow_alone (h : Handle) :
    let s := SharedHandle.follow { handle := h, uses := [.disposing] } [0, 0, 0]
    s.handle = h.dispose.2 ∧ s.uses = [.disposed h.dispose.1] := by
  obtain ⟨state, signalled⟩ := h
  cases state <;> exact ⟨rfl, rfl⟩

end SharedHandle

end Redial
