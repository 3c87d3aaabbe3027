/-!
# Retry budgets

How many unsuccessful results may still lead to another attempt. Faults do not draw on the budget.
-/

namespace Redial.Retry

/-- The retries of unsuccessful results that are left. -/
structure Budget where
  remaining : Nat
  deriving DecidableEq

namespace Budget

def exhausted (budget : Budget) : Bool := budget.remaining = 0

/-- Takes one retry from the budget, and tells whether there was one to take. -/
def take (budget : Budget) : Bool × Budget :=
  if budget.exhausted then (false, budget) else (true, ⟨budget.remaining - 1⟩)

end Budget

end Redial.Retry
