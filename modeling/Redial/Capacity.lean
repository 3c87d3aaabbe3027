import Redial.Text.Decimal

/-!
# Capacities

How many places a queue can be asked to have. The places of an outbox and of a feed are set aside at
once, so all of them have to fit into one block of memory. The queue of a subscriber grows as it is
filled; it only has to count its places.
-/

namespace Redial

inductive Oversize where
  /-- Its places do not fit into a block of memory. -/
  | memory
  | feed
  | queue
  deriving DecidableEq

namespace Capacity

/-- The bytes of the greatest block of memory, and the places of the greatest feed. -/
def maxBlock : Nat := UInt64.size / 2 - 1

def maxQueue : Nat := UInt64.size / 8 - 1

/-- The bytes of a place in an outbox of verdicts. -/
def verdictPlace : Nat := 40

/-- The bytes of a place in an outbox of texts. -/
def textPlace : Nat := 24

/-- The bytes of a place in a feed. -/
def feedPlace : Nat := 136

/-- Places that need so many bytes each fit into a block of memory. -/
def checkBlock (places bytes : Nat) : Except Oversize Unit :=
  if places * bytes ≤ maxBlock then .ok () else .error .memory

/-- An outbox whose places need so many bytes each can have the capacity. -/
def checkOutbox (capacity bytes : Nat) : Except Oversize Unit := checkBlock (max capacity 1) bytes

/-- A feed can have the capacity, once that is rounded up to a power of two. -/
def checkFeed (capacity : Nat) : Except Oversize Unit :=
  if maxBlock < capacity then .error .feed
  else checkBlock (max capacity 1).nextPowerOfTwo feedPlace

/-- The queue of a subscriber can have the capacity. -/
def checkQueue (capacity : Nat) : Except Oversize Unit :=
  if maxQueue < capacity then .error .queue else .ok ()

end Capacity

def Oversize.message : Oversize → String
  | .memory => "capacity overflow"
  | .feed => "broadcast channel capacity exceeded `usize::MAX / 2`"
  | .queue => "a semaphore may not have more than MAX_PERMITS permits (" ++
      String.ofList (Text.decimal Capacity.maxQueue) ++ ")"

end Redial
