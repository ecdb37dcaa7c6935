import SwiftManifest.Text.Digit

/-! Decimal numbers and the range of double precision. -/

namespace SwiftManifest

def twoTo (n : Nat) : Nat := Nat.pow 2 n

def tenTo (n : Nat) : Nat := Nat.pow 10 n

/-- The exponent of a number in scientific notation. -/
structure Exponent where
  negative : Bool
  digits : Text
  deriving DecidableEq, Repr

namespace Exponent

def value (e : Exponent) : Int :=
  if e.negative then - (numberOf 10 e.digits : Int) else numberOf 10 e.digits

end Exponent

/-- The power of ten that an optional exponent stands for. -/
def exponentOr (e : Option Exponent) : Int := (e.map Exponent.value).getD 0

/-- A natural number rounded to 53 significant bits, a tie to the even neighbour. -/
def roundToDouble (n : Nat) : Nat :=
  if n < twoTo 53 then n
  else
    let shift := n.log2 - 52
    let quotient := n / twoTo shift
    let remainder := n % twoTo shift
    let half := twoTo (shift - 1)
    if remainder > half ∨ (remainder = half ∧ quotient % 2 = 1) then (quotient + 1) * twoTo shift
    else quotient * twoTo shift

/-- The least number that rounds beyond the largest double. -/
def overflowBound : Nat := twoTo 1024 - twoTo 970

end SwiftManifest
