/-!
# Feeds

A feed hands every item to all its readers without ever waiting for them. It keeps only the newest
items, as many as its size. A reader that has fallen further behind is told how many it has missed
and goes on with the oldest item that is kept. Without readers nothing is kept at all.
-/

namespace Redial

/-- A bounded broadcast: the newest items and the position of every reader. -/
structure Feed (α : Type) where
  size : Nat
  size_pos : 0 < size
  /-- How many items were taken in so far. -/
  sent : Nat
  kept : List α
  /-- Everything is kept until the size is reached, and from then on as much as the size. -/
  kept_length : kept.length = min sent size
  /-- Per reader the number of the next item; nothing for a reader that has left. -/
  readers : List (Option Nat)
  /-- Per sender whether it can still send. -/
  senders : List Bool

inductive Reading (α : Type) where
  | item (a : α)
  | empty
  /-- Everything is read and nobody can send any more. -/
  | closed
  | lagged (missed : Nat)

namespace Feed

variable {α : Type}

/-- A feed for one sender. Its size is the capacity, at least one, rounded up to a power of two. -/
def create (capacity : Nat) : Feed α where
  size := (max capacity 1).nextPowerOfTwo
  size_pos := Nat.pos_of_isPowerOfTwo (Nat.isPowerOfTwo_nextPowerOfTwo _)
  sent := 0
  kept := []
  kept_length := by simp
  readers := []
  senders := [true]

def readerCount (f : Feed α) : Nat := (f.readers.filter Option.isSome).length

/-- Hands an item to all readers; with nobody to read it, it is gone. -/
def send (f : Feed α) (a : α) : Feed α :=
  if f.readerCount = 0 then f
  else
    { f with
      sent := f.sent + 1
      kept := (f.kept ++ [a]).drop (f.kept.length + 1 - f.size)
      kept_length := by
        have := f.kept_length
        simp only [List.length_drop, List.length_append, List.length_singleton]
        omega }

def canSend (f : Feed α) (s : Nat) : Bool := f.senders[s]?.getD false

/-- A new reader in the next free place, which sees the items sent from now on. -/
def subscribe (f : Feed α) : Feed α := { f with readers := f.readers ++ [some f.sent] }

/-- A new reader that sender `s` lets in; a sender that has left lets nobody in. -/
def subscribeVia (f : Feed α) (s : Nat) : Feed α :=
  if f.canSend s then f.subscribe else { f with readers := f.readers ++ [none] }

def unsubscribe (f : Feed α) (r : Nat) : Feed α := { f with readers := f.readers.set r none }

def isOpen (f : Feed α) : Bool := f.senders.any id

/-- A new sender, which can send if sender `s` can. -/
def addSender (f : Feed α) (s : Nat) : Feed α := { f with senders := f.senders ++ [f.canSend s] }

def dropSender (f : Feed α) (s : Nat) : Feed α := { f with senders := f.senders.set s false }

def oldest (f : Feed α) : Nat := f.sent - f.size

/-- What reader `r` finds now, and the feed after it has looked. -/
def read (f : Feed α) (r : Nat) : Reading α × Feed α :=
  match f.readers[r]?.join with
  | none => (.closed, f)
  | some position =>
    if position < f.oldest then
      (.lagged (f.oldest - position), { f with readers := f.readers.set r (some f.oldest) })
    else match f.kept[position - f.oldest]? with
      | some a => (.item a, { f with readers := f.readers.set r (some (position + 1)) })
      | none => (if f.isOpen then .empty else .closed, f)

/-- Reads until nothing is left: at most one report of lag and all the kept items. -/
def readAll (f : Feed α) (r : Nat) : List (Reading α) × Feed α :=
  go (f.kept.length + 1) f
where
  go : Nat → Feed α → List (Reading α) × Feed α
    | 0, f => ([], f)
    | n + 1, f =>
      match f.read r with
      | (.empty, f) | (.closed, f) => ([], f)
      | (reading, f) =>
        let (rest, f) := go n f
        (reading :: rest, f)

theorem oldest_add_length_kept (f : Feed α) : f.oldest + f.kept.length = f.sent := by
  have := f.kept_length
  unfold oldest
  omega

/-- What is sent to somebody comes last. -/
theorem getLast?_kept_send (f : Feed α) (a : α) (hr : f.readerCount ≠ 0) :
    (f.send a).kept.getLast? = some a := by
  have hs := f.size_pos
  have hk := f.kept_length
  have hd : ¬ (f.kept ++ [a]).length ≤ f.kept.length + 1 - f.size := by
    simp only [List.length_append, List.length_singleton]
    omega
  simp only [send, hr, if_false, List.getLast?_drop, hd]
  simp

end Feed

end Redial
