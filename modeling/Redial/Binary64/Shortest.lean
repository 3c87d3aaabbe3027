import Redial.Binary64
import Redial.Text.Decimal

/-!
# Shortest decimal text of a double

A double is written with the fewest digits that read back as the same double, and of those with
the digits nearest to its value. The search tries one digit, two digits and so on; on each decimal
grid only the two neighbours of the value can be the answer.
-/

namespace Redial.Binary64

/-- The doubles next to `units` are reached half-way up and down; these are the two half-way points,
counted in quarters of a unit. -/
def readBackInterval (units : Nat) : Nat × Nat :=
  let step := spacing units
  let below := if units = 1 <<< units.log2 ∧ 1 < step then step / 2 else step
  (4 * units - 2 * below, 4 * units + 2 * step)

/-- The half-way points themselves read back as `units` iff its significand is even. -/
def keepsHalfWay (units : Nat) : Bool := units / spacing units % 2 = 0

structure Scientific where
  digits : Nat
  exponent : Int
  deriving DecidableEq

/-- The exponent `p` with `10 ^ (p - 1) ≤ value < 10 ^ p`, for a value of `units > 0`. -/
def decimalExponent (units : Nat) : Int :=
  ((Text.decimal (units * Nat.pow 10 324 / one)).length : Int) - 324

/-- Does `k * num / den` quarter units read back as `units`? -/
def readsBack (units k num den : Nat) : Bool :=
  let (low, high) := readBackInterval units
  if keepsHalfWay units then low * den ≤ k * num && k * num ≤ high * den
  else low * den < k * num && k * num < high * den

/--
The better of the two neighbours of `units` among the multiples of `10 ^ exponent`, if one of them
reads back. The nearer one wins, and of two at the same distance the greater one.
-/
def onGrid (units : Nat) (exponent : Int) : Option Scientific :=
  let num := 4 * one * Nat.pow 10 exponent.toNat
  let den := Nat.pow 10 (-exponent).toNat
  let low := 4 * units * den / num
  let lowReads := readsBack units low num den
  let highReads := readsBack units (low + 1) num den
  let highNearer := 2 * (4 * units * den) ≥ (2 * low + 1) * num
  if highReads && (highNearer || !lowReads) then some ⟨low + 1, exponent⟩
  else if lowReads then some ⟨low, exponent⟩
  else none

/-- The first grid with an answer, from the digit count `used + 1` on. -/
def shortestFrom (units : Nat) (top : Int) : Nat → Nat → Scientific
  | used, 0 => ⟨0, top - used⟩
  | used, left + 1 =>
    match onGrid units (top - (used + 1 : Nat)) with
    | some answer => answer
    | none => shortestFrom units top (used + 1) left

/-- The shortest decimal number that reads back; seventeen digits always suffice. -/
def shortest (units : Nat) : Scientific :=
  shortestFrom units (decimalExponent units) 0 17

/-- The digits of a decimal number without the zeros at its end, and the place of its point: the
value is `0.d₁d₂… * 10 ^ point`. -/
def Scientific.significant (s : Scientific) : List Char × Int :=
  let digits := Text.decimal s.digits
  (Text.dropTrailingZeros digits, s.exponent + digits.length)

/-- Digits with a point among or around them; at least one digit stands on either side of it. -/
def positional (digits : List Char) (point : Int) : List Char :=
  if point ≤ 0 then
    ['0', '.'] ++ List.replicate (-point).toNat '0' ++ digits
  else if digits.length ≤ point.toNat then
    digits ++ List.replicate (point.toNat - digits.length) '0' ++ ['.', '0']
  else
    digits.take point.toNat ++ ['.'] ++ digits.drop point.toNat

/-- One digit before the point and an exponent of ten: `1.5e-5`, `1e16`. -/
def exponential (digits : List Char) (point : Int) : List Char :=
  let e := point - 1
  let mark := if e < 0 then ['e', '-'] else ['e']
  let mantissa := match digits with
    | [] => []
    | [d] => [d]
    | d :: rest => d :: '.' :: rest
  mantissa ++ mark ++ Text.decimal e.natAbs

/-- The text of a positive double: positional from 0.0001 up to below 10 ^ 16, else exponential. -/
def positiveChars (units : Nat) : List Char :=
  let (digits, point) := (shortest units).significant
  if one ≤ units * 10_000 && units < one * 10_000_000_000_000_000 then positional digits point
  else exponential digits point

/-- The text of a double: `1.0`, `-0.0`, `1e16`, `NaN`, `inf`. -/
def chars : Binary64 → List Char
  | nan => ['N', 'a', 'N']
  | infinite negative => (if negative then ['-'] else []) ++ ['i', 'n', 'f']
  | finite negative units =>
    (if negative then ['-'] else []) ++
      (if units = 0 then ['0', '.', '0'] else positiveChars units)

end Redial.Binary64
