import Redial.Delivery.Overflow

/-!
# Delivery settings

How the outcome of a call is handed over, and how many events a feed of its own can hold. Of either
capacity zero means one.
-/

namespace Redial.Delivery

structure Settings where
  overflow : Overflow
  outboxCapacity : Nat
  feedCapacity : Nat
  deriving DecidableEq

namespace Settings

/-- The settings of a call that asks for none, given the rule of the process. -/
def usual (rule : Overflow) : Settings := ⟨rule, 1, 64⟩

def outboxRoom (s : Settings) : Nat := max s.outboxCapacity 1

def feedRoom (s : Settings) : Nat := max s.feedCapacity 1

end Settings

end Redial.Delivery
