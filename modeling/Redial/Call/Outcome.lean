import Redial.Fault

/-!
# Outcomes

What a run body returns. A result says whether it is a success; anything else is a fault. The
verdict of a run is the result or the fault that its callbacks receive.
-/

namespace Redial

universe u

/-- Values that can be judged a success or not. -/
class Outcome (ρ : Type u) where
  isSuccess : ρ → Bool

instance : Outcome Bool := ⟨id⟩

/-- A value in a box of its own. -/
structure Boxed (ρ : Type u) where
  value : ρ

instance {ρ : Type u} [Outcome ρ] : Outcome (Boxed ρ) := ⟨fun b => Outcome.isSuccess b.value⟩

/-- A value of any type that can be judged. -/
inductive AnyOutcome : Type (u + 1) where
  | of {ρ : Type u} [Outcome ρ] (value : ρ)

instance : Outcome AnyOutcome.{u} :=
  ⟨fun | @AnyOutcome.of ρ judged value => @Outcome.isSuccess ρ judged value⟩

/-- A result: its judgement and a mark to tell it from others. -/
structure Result where
  succeeded : Bool
  tag : String
  deriving DecidableEq

instance : Outcome Result := ⟨Result.succeeded⟩

/-- What one invocation of a run body yields. -/
abbrev Output := Except Fault Result

/-- What a run ends with. A result need not be a success. -/
inductive Verdict where
  | success (result : Result)
  | failure (fault : Fault)
  deriving DecidableEq

end Redial
