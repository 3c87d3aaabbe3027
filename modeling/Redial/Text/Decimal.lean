/-!
# Decimal text

Numbers written in base ten, as lists of characters: plain, padded to a width, and as a
fraction whose trailing zeros are left away. The list form is what the renderers of this
library append to each other.
-/

namespace Redial.Text

/-- The digits of `n`, without leading zeros; `0` is written `0`. -/
def decimal (n : Nat) : List Char := Nat.toDigits 10 n

/-- The digits of `n`, filled up from the left with zeros to at least `width` characters. -/
def padded (width n : Nat) : List Char :=
  let digits := decimal n
  List.replicate (width - digits.length) '0' ++ digits

def dropTrailingZeros (cs : List Char) : List Char :=
  (cs.reverse.dropWhile (· == '0')).reverse

/-- The fraction `n / 10 ^ width` after its point, with the point; nothing at all if it is zero. -/
def fraction (width n : Nat) : List Char :=
  match dropTrailingZeros (padded width n) with
  | [] => []
  | digits => '.' :: digits

end Redial.Text
