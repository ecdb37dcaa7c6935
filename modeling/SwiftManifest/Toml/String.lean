import SwiftManifest.Text.Digit
import SwiftManifest.Toml.Space

/-! The four kinds of TOML strings: basic ones with escapes and literal ones without, each on one
line or on several. -/

namespace SwiftManifest.Toml

def shortEscape? : Char → Option Char
  | '"' => some '"'
  | '\\' => some '\\'
  | 'b' => some '\x08'
  | 'f' => some '\x0c'
  | 'n' => some '\n'
  | 'r' => some '\r'
  | 't' => some '\t'
  | _ => none

/-- The character with a given code, in hexadecimal digits; surrogates are none. -/
def charOfHex? (digits : Text) : Option Char :=
  let code := numberOf 16 digits
  if digits.all isHexDigit ∧ code.isValidChar then some (Char.ofNat code) else none

def prepend (c : Char) (result : Option (Text × Text)) : Option (Text × Text) :=
  result.map fun (text, rest) => (c :: text, rest)

/-- A basic string behind its opening quote, and what follows it. -/
def readBasic : Text → Option (Text × Text)
  | [] => none
  | '"' :: cs => some ([], cs)
  | '\\' :: 'u' :: a :: b :: c :: d :: cs => do prepend (← charOfHex? [a, b, c, d]) (readBasic cs)
  | '\\' :: 'U' :: a :: b :: c :: d :: e :: f :: g :: h :: cs => do
    prepend (← charOfHex? [a, b, c, d, e, f, g, h]) (readBasic cs)
  | '\\' :: e :: cs => do prepend (← shortEscape? e) (readBasic cs)
  | c :: cs => if isPrintable c then prepend c (readBasic cs) else none

def readLiteral : Text → Option (Text × Text)
  | [] => none
  | '\'' :: cs => some ([], cs)
  | c :: cs => if isPrintable c then prepend c (readLiteral cs) else none

/-- Whether a backslash in front of this text continues the line. -/
def continuesLine (cs : Text) : Bool := (readNewline (skipBlank cs)).isSome

/-- A basic string of several lines. Behind a continued line (`trimming`) blanks and line ends are
dropped. Up to two quotes may stand right before the three that close the string. -/
def readBasicLines : (trimming : Bool) → Text → Option (Text × Text)
  | _, [] => none
  | true, ' ' :: cs => readBasicLines true cs
  | true, '\t' :: cs => readBasicLines true cs
  | true, '\n' :: cs => readBasicLines true cs
  | true, '\r' :: '\n' :: cs => readBasicLines true cs
  | _, '"' :: '"' :: '"' :: '"' :: '"' :: cs => some (['"', '"'], cs)
  | _, '"' :: '"' :: '"' :: '"' :: cs => some (['"'], cs)
  | _, '"' :: '"' :: '"' :: cs => some ([], cs)
  | _, '\\' :: 'u' :: a :: b :: c :: d :: cs => do
    prepend (← charOfHex? [a, b, c, d]) (readBasicLines false cs)
  | _, '\\' :: 'U' :: a :: b :: c :: d :: e :: f :: g :: h :: cs => do
    prepend (← charOfHex? [a, b, c, d, e, f, g, h]) (readBasicLines false cs)
  | _, '\\' :: e :: cs =>
    if continuesLine (e :: cs) then readBasicLines true (e :: cs)
    else do prepend (← shortEscape? e) (readBasicLines false cs)
  | _, '\r' :: '\n' :: cs => prepend '\n' (readBasicLines false cs)
  | _, '\n' :: cs => prepend '\n' (readBasicLines false cs)
  | _, c :: cs => if isPrintable c then prepend c (readBasicLines false cs) else none

def readLiteralLines : Text → Option (Text × Text)
  | [] => none
  | '\'' :: '\'' :: '\'' :: '\'' :: '\'' :: cs => some (['\'', '\''], cs)
  | '\'' :: '\'' :: '\'' :: '\'' :: cs => some (['\''], cs)
  | '\'' :: '\'' :: '\'' :: cs => some ([], cs)
  | '\r' :: '\n' :: cs => prepend '\n' (readLiteralLines cs)
  | '\n' :: cs => prepend '\n' (readLiteralLines cs)
  | c :: cs => if isPrintable c then prepend c (readLiteralLines cs) else none

/-- A line end right behind the opening quotes does not belong to the string. -/
def skipFirstNewline (cs : Text) : Text := (readNewline cs).getD cs

/-- A string of any kind, if the text starts with one. -/
def readString : Text → Option (Text × Text)
  | '"' :: '"' :: '"' :: cs => readBasicLines false (skipFirstNewline cs)
  | '"' :: cs => readBasic cs
  | '\'' :: '\'' :: '\'' :: cs => readLiteralLines (skipFirstNewline cs)
  | '\'' :: cs => readLiteral cs
  | _ => none

end SwiftManifest.Toml
