/-!
# Retry limits

How often a call may be tried again after its first attempt. A limit fits in 32 bits, so the
number of attempts that it allows is at most 2 ^ 32.
-/

namespace Redial.Retry

/-- What a negative number of retries asks for. -/
inductive NegativeCount where
  | none
  | once
  deriving DecidableEq

instance : Inhabited NegativeCount := ⟨.none⟩

/-- The greatest number of retries of a call. -/
structure Limit where
  retries : Nat
  retries_lt : retries < UInt32.size
  deriving DecidableEq

namespace Limit

def zero : Limit := ⟨0, by decide⟩

def greatest : Limit := ⟨UInt32.size - 1, by decide⟩

instance : Inhabited Limit := ⟨zero⟩

/-- The limit of `n` retries, or the greatest one if `n` is beyond it. -/
def ofNat (n : Nat) : Limit := ⟨min n (UInt32.size - 1), by simp only [UInt32.size]; omega⟩

/-- The limit that a signed number asks for: a negative one as `negative` says, one beyond 32 bits
is cut to the greatest limit. -/
def ofInt (n : Int) (negative : NegativeCount) : Limit :=
  if n < 0 then
    match negative with
    | .none => zero
    | .once => ofNat 1
  else ofNat n.toNat

/-- The first attempt and all retries. -/
def maxAttempts (limit : Limit) : Nat := limit.retries + 1

def larger (a b : Limit) : Limit := if a.retries ≤ b.retries then b else a

def smaller (a b : Limit) : Limit := if b.retries < a.retries then b else a

def largest? : List Limit → Option Limit
  | [] => none
  | a :: rest => some (rest.foldl larger a)

def smallest? : List Limit → Option Limit
  | [] => none
  | a :: rest => some (rest.foldl smaller a)

end Limit

end Redial.Retry
