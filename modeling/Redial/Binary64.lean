/-!
# Doubles with exact rounding

IEEE doubles as signed counts of the smallest positive double, 2 ^ -1074. Every operation forms
the exact result and rounds it once, to the nearest double with ties to the even significand, so
the arithmetic is a matter of natural numbers throughout.
-/

namespace Redial

/-- A double: not a number, an infinity, or a signed count of units of 2 ^ -1074. -/
inductive Binary64 where
  | nan
  | infinite (negative : Bool)
  | finite (negative : Bool) (units : Nat)
  deriving DecidableEq

namespace Binary64

def one : Nat := 1 <<< 1074

/-- The count of units from which on a value is infinite: 2 ^ 1024. -/
def overflow : Nat := 1 <<< 2098

/-- `n / d` to the nearest whole number, a half going to the even neighbour. -/
def nearestQuotient (n d : Nat) : Nat :=
  let q := n / d
  let r := n % d
  if 2 * r < d then q
  else if d < 2 * r then q + 1
  else q + q % 2

/-- The distance between the doubles around `units`: 53 significant bits, and at least one unit. -/
def spacing (units : Nat) : Nat := 1 <<< (units.log2 - 52)

/-- `n / d` units to the nearest double, as if the exponent had no upper end. -/
def nearest (n d : Nat) : Nat :=
  let step := spacing (n / d)
  nearestQuotient n (d * step) * step

/-- `n / d` units to the nearest double; from `overflow` on that is an infinity. -/
def ofQuotient (negative : Bool) (n d : Nat) : Binary64 :=
  let units := nearest n d
  if units < overflow then finite negative units else infinite negative

/-- The double with the given sixty-four bits: sign, eleven of exponent, fifty-two of fraction. -/
def ofBits (bits : UInt64) : Binary64 :=
  let word := bits.toNat
  let negative := word >>> 63 == 1
  let exponent := (word >>> 52) % (1 <<< 11)
  let significand := word % (1 <<< 52)
  if exponent = 2047 then
    if significand = 0 then infinite negative else nan
  else if exponent = 0 then finite negative significand
  else finite negative (((1 <<< 52) + significand) <<< (exponent - 1))

/-- The product, rounded once. An infinity times zero is not a number. -/
def mul : Binary64 → Binary64 → Binary64
  | nan, _ => nan
  | _, nan => nan
  | infinite s, infinite t => infinite (s != t)
  | infinite s, finite t n => if n = 0 then nan else infinite (s != t)
  | finite s m, infinite t => if m = 0 then nan else infinite (s != t)
  | finite s m, finite t n => ofQuotient (s != t) (m * n) one

instance : Mul Binary64 := ⟨mul⟩

/--
The loop of `power`: `result` times `base ^ exponent`, where `exponent` has at most `bits` binary
digits. Squares are taken only while digits are left.
-/
def powerFrom : Nat → Binary64 → Nat → Binary64 → Binary64
  | 0, _, _, result => result
  | bits + 1, base, exponent, result =>
    let result := if exponent % 2 = 1 then result * base else result
    if exponent / 2 = 0 then result
    else powerFrom bits (base * base) (exponent / 2) result

def power (base : Binary64) (exponent : Nat) : Binary64 :=
  powerFrom (exponent.log2 + 1) base exponent (finite false one)

end Binary64

end Redial
