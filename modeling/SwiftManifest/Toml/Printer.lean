import SwiftManifest.Toml.Reader

/-! TOML text of a value. The members of a document stand on lines of their own; arrays and the
tables inside a value stay on their line. -/

namespace SwiftManifest.Toml

/-- Quotes, backslashes and characters that are not printable are escaped. -/
def escaped (c : Char) : Text :=
  match c with
  | '"' => ['\\', '"']
  | '\\' => ['\\', '\\']
  | '\x08' => ['\\', 'b']
  | '\x0c' => ['\\', 'f']
  | '\n' => ['\\', 'n']
  | '\r' => ['\\', 'r']
  | '\t' => ['\\', 't']
  | c =>
    if isPrintable c then [c]
    else ['\\', 'u', '0', '0', Nat.digitChar (c.toNat / 16), Nat.digitChar (c.toNat % 16)]

def string (value : String) : Text :=
  '"' :: value.toList.flatMap escaped ++ ['"']

/-- A name is only quoted where it has to be. -/
def key (name : String) : Text :=
  if name.toList ≠ [] ∧ name.toList.all isBare then name.toList else string name

mutual
/-- Null has no notation, nor has a number without a value. -/
def inline : Datum → Text
  | .bool true => "true".toList
  | .bool false => "false".toList
  | .index n => Nat.toDigits 10 n
  | .text value => string value
  | .array elements => '[' :: joined ", " (inlineElements elements) ++ [']']
  | .object members => '{' :: joined ", " (inlineMembers members) ++ ['}']
  | _ => []

def inlineElements : List Datum → List Text
  | [] => []
  | d :: ds => inline d :: inlineElements ds

def inlineMembers : List (String × Datum) → List Text
  | [] => []
  | (name, d) :: ms => (key name ++ ' ' :: '=' :: ' ' :: inline d) :: inlineMembers ms
end

def document (members : List (String × Datum)) : Text :=
  (inlineMembers members).flatMap (· ++ ['\n'])

end SwiftManifest.Toml
