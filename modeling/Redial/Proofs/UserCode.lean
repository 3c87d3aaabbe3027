import Mathlib.Tactic.Lemma
import Redial.Exchange.Run

/-!
# What user code does

Properties of scripts that hold whatever answers they get.
-/

namespace Redial

namespace Script

variable {α : Type}

/-- The code runs no other call. -/
def IsSolo : Script α → Prop
  | .done _ | .panic _ => True
  | .act _ _ next => ∀ answer, (next answer).IsSolo
  | .run _ _ => False

/-- The code comes to an end with `value` on every path. -/
def Returns (value : α) : Script α → Prop
  | .done returned => returned = value
  | .panic _ => False
  | .act _ _ next => ∀ answer, (next answer).Returns value
  | .run _ next => ∀ reply, (next reply).Returns value

end Script

/-- No user code of a plan, nor of the callbacks that are left, runs another call. -/
structure Plan.RunsAlone (plan : Plan) (onSuccess : Option (Result → Script Unit))
    (onFailure : Option (Fault → Script Unit)) : Prop where
  body : ∀ n, (plan.body n).IsSolo
  predicate : ∀ predicate, plan.rule.predicate = some predicate →
    ∀ n fault, (predicate n fault).IsSolo
  onSuccess : ∀ callback, onSuccess = some callback → ∀ result, (callback result).IsSolo
  onFailure : ∀ callback, onFailure = some callback → ∀ fault, (callback fault).IsSolo

/-- No user code that the call still has runs another call. -/
def Call.IsSolo (call : Call) : Prop := call.plan.RunsAlone call.onSuccess call.onFailure

namespace Exchange

variable {α : Type} {value : α} {script : Script α} {nesting : Nesting}

/-- Only a nested run that is stuck can keep such code from its value. -/
lemma play_of_returns (hscript : script.Returns value) (role : Role) (d : CallId) (x : Exchange) :
    (x.play nesting role d script).1 = .ok value ∨
      (x.play nesting role d script).1 = .error .stuck := by
  induction script generalizing x with
  | done returned => exact Or.inl (congrArg Except.ok hscript)
  | panic text => exact hscript.elim
  | act deed target next ih => exact ih _ (hscript _) _
  | run target next ih =>
    unfold play
    split
    · exact Or.inr rfl
    · exact ih _ (hscript _) _

end Exchange

end Redial
