import SwiftManifest.Datum.Basic
import SwiftManifest.Number.Double

/-! Number tokens. Only two things about a number matter: whether it is a whole number that fits in
64 bits, and whether it is small enough for double precision. -/

namespace SwiftManifest.Json

def largestWord : Nat := twoTo 64 - 1

structure Numeral where
  negative : Bool
  whole : Text
  fraction : Text
  exponent : Option Exponent
  deriving DecidableEq, Repr

namespace Numeral

def readSign : Text → Bool × Text
  | '-' :: cs => (true, cs)
  | cs => (false, cs)

/-- Digits without a superfluous leading zero. -/
def readWhole (cs : Text) : Option (Text × Text) :=
  match cs.takeWhile isDigit with
  | [] => none
  | '0' :: _ :: _ => none
  | digits => some (digits, cs.dropWhile isDigit)

def readDigits (cs : Text) : Option (Text × Text) :=
  match cs.takeWhile isDigit with
  | [] => none
  | digits => some (digits, cs.dropWhile isDigit)

def readFraction : Text → Option (Text × Text)
  | '.' :: cs => readDigits cs
  | cs => some ([], cs)

def readExponentDigits (negative : Bool) (cs : Text) : Option (Option Exponent × Text) := do
  let (digits, cs) ← readDigits cs
  return (some { negative, digits }, cs)

def readExponent : Text → Option (Option Exponent × Text)
  | c :: cs =>
    if c = 'e' ∨ c = 'E' then
      match cs with
      | '+' :: cs => readExponentDigits false cs
      | '-' :: cs => readExponentDigits true cs
      | cs => readExponentDigits false cs
    else some (none, c :: cs)
  | [] => some (none, [])

def read (cs : Text) : Option (Numeral × Text) := do
  let (negative, cs) := readSign cs
  let (whole, cs) ← readWhole cs
  let (fraction, cs) ← readFraction cs
  let (exponent, cs) ← readExponent cs
  return ({ negative, whole, fraction, exponent }, cs)

/-- Takes digits in as long as the significand fits in 64 bits; the rest are left over. -/
def absorb : Nat → Text → Nat × Text
  | significand, [] => (significand, [])
  | significand, c :: cs =>
    let next := 10 * significand + digitValue c
    if next ≤ largestWord then absorb next cs else (significand, c :: cs)

/-- Whether double precision can hold the number. Digits of the significand that do not fit in
64 bits are dropped, whole ones in exchange for a larger exponent; significand and power of ten are
rounded before they are multiplied. -/
def inRange (n : Numeral) : Bool :=
  let (whole, left) := absorb 0 n.whole
  let (significand, unused) := absorb whole n.fraction
  let shift : Int := (left.length : Int) - (n.fraction.length - unused.length : Nat)
  let exponent := shift + exponentOr n.exponent
  if significand = 0 ∨ exponent < 0 then true
  else if exponent > 308 then false
  else roundToDouble significand * roundToDouble (tenTo exponent.toNat) < overflowBound

/-- What a number is as a value: a whole number without a sign counts if it fits in 64 bits. -/
def toDatum (n : Numeral) : Datum :=
  if n.inRange then
    if ¬ n.negative ∧ n.fraction = [] ∧ n.exponent = none ∧ numberOf 10 n.whole ≤ largestWord then
      .index (numberOf 10 n.whole)
    else .number
  else .unreadable

end Numeral

end SwiftManifest.Json
