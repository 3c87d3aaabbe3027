import Mathlib.Tactic.Lemma
import Redial.Call.Progress

/-!
# Counting attempts
-/

namespace Redial.Progress

variable {p : Progress} {limit : Retry.Limit}

@[simp] lemma attempt_spend (p : Progress) (enabled : Bool) :
    (p.spend enabled).2.attempt = p.attempt := by
  unfold spend
  split <;> rfl

lemma attempt_lt (hmay : p.mayRetry limit = true) : p.attempt < limit.maxAttempts :=
  of_decide_eq_true hmay

/-- The delays of a plan that are asked for are those of its retries. -/
lemma retryIndex_lt (hp : p.attempt ≠ 0) (hmay : p.mayRetry limit = true) :
    p.retryIndex < limit.retries := by
  have hlt : p.attempt < limit.retries + 1 := attempt_lt hmay
  unfold retryIndex
  omega

/-- The number of a retry is never cut to the greatest one that can be kept. -/
lemma retryIndex_eq (h : p.attempt ≤ limit.retries) : p.retryIndex = p.attempt - 1 := by
  have hmost := limit.retries_lt
  unfold retryIndex
  omega

/-- An attempt draws on the budget once at most. -/
lemma remaining_le_spend (p : Progress) (enabled : Bool) :
    p.budget.remaining ≤ (p.spend enabled).2.budget.remaining + 1 := by
  cases enabled with
  | false => exact Nat.le_succ _
  | true =>
    simp only [spend, Retry.Budget.take, if_true]
    split
    · exact Nat.le_succ _
    · dsimp only
      omega

lemma spend_fst (h : 0 < p.budget.remaining) (enabled : Bool) : (p.spend enabled).1 = enabled := by
  have hleft : p.budget.exhausted = false := decide_eq_false (Nat.ne_of_gt h)
  cases enabled with
  | false => rfl
  | true => simp [spend, Retry.Budget.take, hleft]

end Redial.Progress
