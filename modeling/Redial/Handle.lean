import Redial.Text.Quoted

/-!
# Handles

A handle lets others watch a run and give it up. It goes from idle to running to disposed, or
straight from idle to disposed, and never back. Disposing is two steps, as other threads can come
in between: the state changes hands first, and whoever changed it gives the signal.
-/

namespace Redial

inductive HandleState where
  | idle
  | running
  | disposed
  deriving DecidableEq

def HandleState.name : HandleState → String
  | .idle => "Idle"
  | .running => "Running"
  | .disposed => "Disposed"

/-- The state of one run and the signal that it has been given up. -/
structure Handle where
  state : HandleState := .idle
  signalled : Bool := false
  deriving DecidableEq

namespace Handle

def fresh : Handle := {}

/-- The run begins, if it has not begun before and nobody has given it up. -/
def start (h : Handle) : Bool × Handle :=
  if h.state = .idle then (true, { h with state := .running }) else (false, h)

/-- The state becomes `disposed`; the former state tells who was first. -/
def swap (h : Handle) : HandleState × Handle := (h.state, { h with state := .disposed })

/-- Those who wait for the end of the run are told. -/
def signal (h : Handle) : Handle := { h with signalled := true }

/-- Gives the run up, and tells whether this was the first time. -/
def dispose (h : Handle) : Bool × Handle :=
  match h.swap with
  | (.disposed, h) => (false, h)
  | (_, h) => (true, h.signal)

def isDisposed (h : Handle) : Bool := h.state = .disposed

theorem isDisposed_dispose (h : Handle) : h.dispose.2.isDisposed = true := by
  obtain ⟨state, signalled⟩ := h
  cases state <;> rfl

theorem dispose_fst_eq (h : Handle) : h.dispose.1 = !h.isDisposed := by
  obtain ⟨state, signalled⟩ := h
  cases state <;> rfl

theorem dispose_dispose (h : Handle) : h.dispose.2.dispose.2 = h.dispose.2 := by
  obtain ⟨state, signalled⟩ := h
  cases state <;> rfl

/-- A start does not dispose, and does not undo a disposal. -/
theorem isDisposed_start (h : Handle) : h.start.2.isDisposed = h.isDisposed := by
  obtain ⟨state, signalled⟩ := h
  cases state <;> rfl

theorem start_fst_eq_true_iff (h : Handle) : h.start.1 = true ↔ h.state = .idle := by
  unfold start
  split <;> simp_all

def debugText (h : Handle) (call : String) : String :=
  "ExecutionHandle \x7b call: " ++ Text.quote call ++ ", state: " ++ h.state.name ++ " \x7d"

end Handle

/-- Handles under several names: entry `i` of `owners` says which handle name `i` stands for. -/
structure HandleSet where
  handles : List Handle
  owners : List Nat

namespace HandleSet

def single : HandleSet := ⟨[.fresh], [0]⟩

def get (s : HandleSet) (i : Nat) : Handle :=
  (s.owners[i]? >>= (s.handles[·]?)).getD .fresh

def size (s : HandleSet) : Nat := s.owners.length

def add (s : HandleSet) : HandleSet :=
  ⟨s.handles ++ [.fresh], s.owners ++ [s.handles.length]⟩

/-- One more name for the handle behind name `i`. -/
def clone (s : HandleSet) (i : Nat) : HandleSet :=
  { s with owners := s.owners ++ [s.owners.getD i 0] }

def dispose (s : HandleSet) (i : Nat) : Bool × HandleSet :=
  let (first, h) := (s.get i).dispose
  (first, { s with handles := s.handles.set (s.owners.getD i 0) h })

def states (s : HandleSet) : List HandleState :=
  (List.range s.size).map fun i => (s.get i).state

end HandleSet

end Redial
