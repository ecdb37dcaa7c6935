import SwiftManifest.Datum.Basic
import SwiftManifest.Text.Lines

/-! JSON text of a value, on one line or with one member or element to a line. Numbers have no
text of their own and are written like null. -/

namespace SwiftManifest.Json

def hexDigit (n : Nat) : Char := Nat.digitChar n

/-- Quotes, backslashes and control characters are escaped, everything else stands for itself. -/
def escaped (c : Char) : Text :=
  match c with
  | '"' => ['\\', '"']
  | '\\' => ['\\', '\\']
  | '\x08' => ['\\', 'b']
  | '\x0c' => ['\\', 'f']
  | '\n' => ['\\', 'n']
  | '\r' => ['\\', 'r']
  | '\t' => ['\\', 't']
  | c =>
    if c.toNat < 0x20 then
      ['\\', 'u', '0', '0', hexDigit (c.toNat / 16), hexDigit (c.toNat % 16)]
    else [c]

def string (value : String) : Text :=
  '"' :: value.toList.flatMap escaped ++ ['"']

/-- The values that are written the same in both layouts. -/
def word : Datum → Text
  | .bool true => "true".toList
  | .bool false => "false".toList
  | .index n => Nat.toDigits 10 n
  | .text value => string value
  | _ => "null".toList

mutual
def compact : Datum → Text
  | .array elements => '[' :: joined "," (compactElements elements) ++ [']']
  | .object members => '{' :: joined "," (compactMembers members) ++ ['}']
  | d => word d

def compactElements : List Datum → List Text
  | [] => []
  | d :: ds => compact d :: compactElements ds

def compactMembers : List (String × Datum) → List Text
  | [] => []
  | (name, d) :: ms => (string name ++ ':' :: compact d) :: compactMembers ms
end

def margin (level : Nat) : Text := List.replicate (2 * level) ' '

/-- Parts on lines of their own, two spaces further right than the brackets around them. -/
def block (level : Nat) (opening closing : Char) (parts : List Text) : Text :=
  if parts.isEmpty then [opening, closing]
  else opening :: '\n' :: joined ",\n" (parts.map (margin (level + 1) ++ ·)) ++
    '\n' :: margin level ++ [closing]

mutual
def prettyAt (level : Nat) : Datum → Text
  | .array elements => block level '[' ']' (prettyElements (level + 1) elements)
  | .object members => block level '{' '}' (prettyMembers (level + 1) members)
  | d => word d

def prettyElements (level : Nat) : List Datum → List Text
  | [] => []
  | d :: ds => prettyAt level d :: prettyElements level ds

def prettyMembers (level : Nat) : List (String × Datum) → List Text
  | [] => []
  | (name, d) :: ms => (string name ++ ':' :: ' ' :: prettyAt level d) :: prettyMembers level ms
end

def pretty (d : Datum) : Text := prettyAt 0 d

end SwiftManifest.Json
