import SwiftManifest.Number.Double
import SwiftManifest.Toml.Space

/-! Numbers, dates and times in TOML. Only their form and range matter, so reading one gives just
what follows it. -/

namespace SwiftManifest.Toml

/-- More digits, with single underscores between them. -/
def readMoreDigits (accepts : Char → Bool) : Text → Option (Text × Text)
  | '_' :: c :: cs =>
    if accepts c then
      (readMoreDigits accepts cs).map fun (digits, rest) => (c :: digits, rest)
    else none
  | ['_'] => none
  | c :: cs =>
    if accepts c then
      (readMoreDigits accepts cs).map fun (digits, rest) => (c :: digits, rest)
    else some ([], c :: cs)
  | [] => some ([], [])

def readDigits (accepts : Char → Bool) : Text → Option (Text × Text)
  | c :: cs =>
    if accepts c then
      (readMoreDigits accepts cs).map fun (digits, rest) => (c :: digits, rest)
    else none
  | [] => none

def readSign : Text → Bool × Text
  | '-' :: cs => (true, cs)
  | '+' :: cs => (false, cs)
  | cs => (false, cs)

/-- A zero stands alone; no other number starts with one. -/
def readWhole : Text → Option (Text × Text)
  | '0' :: cs => some (['0'], cs)
  | cs => readDigits isDigit cs

def readFraction : Text → Option (Text × Text)
  | '.' :: cs => readDigits isDigit cs
  | cs => some ([], cs)

def readExponent (cs : Text) : Option (Option Exponent × Text) :=
  match cs with
  | [] => some (none, [])
  | c :: rest =>
    if c = 'e' ∨ c = 'E' then do
      let (negative, rest) := readSign rest
      let (digits, rest) ← readDigits isDigit rest
      return (some { negative, digits }, rest)
    else some (none, cs)

/-- Whether a positive decimal number stays below the bound at which it rounds to infinity. The
first nonzero digit settles it unless the number has exactly 309 digits in front of the point. -/
def floatInRange (whole fraction : Text) (exponent : Option Exponent) : Bool :=
  let significant := (whole ++ fraction).dropWhile (· = '0')
  let shift := exponentOr exponent - fraction.length
  let size := significant.length + shift
  if significant = [] ∨ size < 309 then true
  else if size > 309 then false
  else
    numberOf 10 significant * tenTo shift.toNat <
      overflowBound * tenTo (-shift).toNat

def integerInRange (negative : Bool) (magnitude : Nat) : Bool :=
  if negative then magnitude ≤ twoTo 63 else magnitude < twoTo 63

/-- A decimal integer or a float. Floats below the range are taken, those above it are not. -/
def readDecimal (cs : Text) : Option Text := do
  let (negative, cs) := readSign cs
  match cs with
  | 'i' :: 'n' :: 'f' :: cs => return cs
  | 'n' :: 'a' :: 'n' :: cs => return cs
  | cs =>
    let (whole, afterWhole) ← readWhole cs
    let (fraction, afterFraction) ← readFraction afterWhole
    let (exponent, rest) ← readExponent afterFraction
    let inRange :=
      if fraction = [] ∧ exponent = none then
        integerInRange negative (numberOf 10 whole)
      else negative || floatInRange whole fraction exponent
    if inRange then some rest else none

/-- An integer in another base, behind its marker. -/
def readRadix (base : Nat) (accepts : Char → Bool) (cs : Text) : Option Text := do
  let (digits, rest) ← readDigits accepts cs
  if integerInRange false (numberOf base digits) then some rest
  else none

def readNumber : Text → Option Text
  | '0' :: 'x' :: cs => readRadix 16 isHexDigit cs
  | '0' :: 'o' :: cs => readRadix 8 (fun c => '0' ≤ c && c ≤ '7') cs
  | '0' :: 'b' :: cs => readRadix 2 (fun c => c = '0' || c = '1') cs
  | cs => readDecimal cs

/-- A number of exactly as many digits as there are characters. -/
def fixed? (digits : Text) : Option Nat :=
  if digits.all isDigit then some (numberOf 10 digits) else none

def daysIn (year month : Nat) : Nat :=
  if month = 2 then
    if year % 4 = 0 ∧ (year % 100 ≠ 0 ∨ year % 400 = 0) then 29 else 28
  else if month = 4 ∨ month = 6 ∨ month = 9 ∨ month = 11 then 30
  else 31

def readDate : Text → Option Text
  | a :: b :: c :: d :: '-' :: e :: f :: '-' :: g :: h :: cs => do
    let year ← fixed? [a, b, c, d]
    let month ← fixed? [e, f]
    let day ← fixed? [g, h]
    if 1 ≤ month ∧ month ≤ 12 ∧ 1 ≤ day ∧ day ≤ daysIn year month then some cs else none
  | _ => none

def skipSecondFraction : Text → Text
  | '.' :: c :: cs => if isDigit c then cs.dropWhile isDigit else '.' :: c :: cs
  | cs => cs

def readTime : Text → Option Text
  | a :: b :: ':' :: c :: d :: ':' :: e :: f :: cs => do
    let hour ← fixed? [a, b]
    let minute ← fixed? [c, d]
    let second ← fixed? [e, f]
    if hour ≤ 23 ∧ minute ≤ 59 ∧ second ≤ 60 then some (skipSecondFraction cs) else none
  | _ => none

def readOffset : Text → Option Text
  | sign :: a :: b :: ':' :: c :: d :: cs => do
    let hour ← fixed? [a, b]
    let minute ← fixed? [c, d]
    if (sign = '+' ∨ sign = '-') ∧ hour ≤ 23 ∧ minute ≤ 59 then some cs else none
  | _ => none

def skipOffset : Text → Text
  | 'Z' :: cs => cs
  | 'z' :: cs => cs
  | cs => (readOffset cs).getD cs

/-- What follows a date: nothing, or a time with or without an offset. -/
def skipTimeOfDay (cs : Text) : Text :=
  match cs with
  | c :: rest =>
    if c = 'T' ∨ c = 't' ∨ c = ' ' then
      match readTime rest with
      | some rest => skipOffset rest
      | none => cs
    else cs
  | [] => []

def readDateTime (cs : Text) : Option Text :=
  match readDate cs with
  | some rest => some (skipTimeOfDay rest)
  | none => readTime cs

end SwiftManifest.Toml
