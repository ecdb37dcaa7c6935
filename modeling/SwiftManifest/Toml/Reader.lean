import SwiftManifest.Toml.Number
import SwiftManifest.Toml.String
import SwiftManifest.Toml.Table

/-! TOML text as a value: its statements, one to a line, and the table they build. -/

namespace SwiftManifest.Toml

def isBare (c : Char) : Bool := c.isAlphanum || c = '_' || c = '-'

def readSimpleKey : Text → Option (String × Text)
  | '"' :: cs => (readBasic cs).map fun (name, rest) => (String.ofList name, rest)
  | '\'' :: cs => (readLiteral cs).map fun (name, rest) => (String.ofList name, rest)
  | cs =>
    match cs.takeWhile isBare with
    | [] => none
    | name => some (String.ofList name, cs.dropWhile isBare)

def readKeyParts : Nat → Text → Option (List String × Text)
  | 0, _ => none
  | fuel + 1, cs => do
    let (name, cs) ← readSimpleKey (skipBlank cs)
    match skipBlank cs with
    | '.' :: cs =>
      let (names, cs) ← readKeyParts fuel cs
      return (name :: names, cs)
    | cs => return ([name], cs)

def nestingLimit : Nat := 79

/-- A key of one or more parts, with the blanks around it. -/
def readKey (cs : Text) : Option (KeyPath × Text) := do
  let (names, cs) ← readKeyParts nestingLimit cs
  return ({ parents := names.dropLast, name := names.getLastD "" }, cs)

/-- A date is a value of its own kind; nothing in a package is one. -/
def dateDatum : Datum := .object [("$datetime", .text "")]

/-- A value that is no array and no inline table. -/
def readScalar (cs : Text) : Option (Datum × Text) :=
  match cs with
  | 't' :: 'r' :: 'u' :: 'e' :: cs => some (.bool true, cs)
  | 'f' :: 'a' :: 'l' :: 's' :: 'e' :: cs => some (.bool false, cs)
  | cs =>
    match readString cs with
    | some (value, rest) => some (.text (String.ofList value), rest)
    | none =>
      match readDateTime cs with
      | some rest => some (dateDatum, rest)
      | none => (readNumber cs).map (Datum.number, ·)

/-- The elements of an array that is not empty; a comma may stand behind the last one. -/
def readElements (readValue : Text → Option (Datum × Text)) :
    Nat → Text → Option (List Datum × Text)
  | 0, _ => none
  | fuel + 1, cs => do
    let (d, cs) ← readValue cs
    match skipLines cs.length cs with
    | ']' :: cs => return ([d], cs)
    | ',' :: cs =>
      match skipLines cs.length cs with
      | ']' :: cs => return ([d], cs)
      | cs =>
        let (ds, cs) ← readElements readValue fuel cs
        return (d :: ds, cs)
    | _ => none

def readArray (readValue : Text → Option (Datum × Text)) (cs : Text) : Option (Datum × Text) :=
  match skipLines cs.length cs with
  | ']' :: cs => some (.array [], cs)
  | cs => (readElements readValue (cs.length + 1) cs).map fun (ds, rest) => (.array ds, rest)

def readPair (readValue : Text → Option (Datum × Text)) (cs : Text) :
    Option (KeyPath × Datum × Text) := do
  let (key, cs) ← readKey cs
  match cs with
  | '=' :: cs =>
    let (d, cs) ← readValue (skipBlank cs)
    return (key, d, cs)
  | _ => none

def readPairs (readValue : Text → Option (Datum × Text)) :
    Nat → Text → Option (List (KeyPath × Datum) × Text)
  | 0, _ => none
  | fuel + 1, cs => do
    let (key, d, cs) ← readPair readValue cs
    match skipBlank cs with
    | '}' :: cs => return ([(key, d)], cs)
    | ',' :: cs =>
      let (pairs, cs) ← readPairs readValue fuel cs
      return ((key, d) :: pairs, cs)
    | _ => none

def tableOf? (pairs : List (KeyPath × Datum)) : Option Datum :=
  (pairs.foldlM (fun entries (key, d) => Entries.insert key d .declared entries) []).map
    fun entries => .object (Item.toMembers entries)

def readInlineTable (readValue : Text → Option (Datum × Text)) (cs : Text) :
    Option (Datum × Text) :=
  match skipBlank cs with
  | '}' :: cs => some (.object [], cs)
  | cs => do
    let (pairs, rest) ← readPairs readValue (cs.length + 1) cs
    return (← tableOf? pairs, rest)

/-- A value, in which `room` more arrays or inline tables may be opened inside one another. -/
def readValue : (room : Nat) → Text → Option (Datum × Text)
  | _, [] => none
  | 0, c :: cs => if c = '[' ∨ c = '{' then none else readScalar (c :: cs)
  | room + 1, c :: cs =>
    if c = '[' then readArray (readValue room) cs
    else if c = '{' then readInlineTable (readValue room) cs
    else readScalar (c :: cs)

inductive Statement where
  | pair (key : KeyPath) (content : Datum)
  | table (key : KeyPath)
  | element (key : KeyPath)
  deriving Repr

def readStatement : Text → Option (Statement × Text)
  | '[' :: '[' :: cs => do
    let (key, cs) ← readKey cs
    match cs with
    | ']' :: ']' :: cs => return (.element key, cs)
    | _ => none
  | '[' :: cs => do
    let (key, cs) ← readKey cs
    match cs with
    | ']' :: cs => return (.table key, cs)
    | _ => none
  | cs => do
    let (key, d, cs) ← readPair (readValue nestingLimit) cs
    return (.pair key d, cs)

/-- All statements of a text, with empty lines and comments between them. -/
def readStatements : Nat → Text → Option (List Statement)
  | 0, _ => none
  | fuel + 1, cs =>
    match skipBlank cs with
    | [] => some []
    | c :: cs =>
      if c = '#' ∨ c = '\n' ∨ c = '\r' then do
        let rest ← readTrailing (c :: cs)
        readStatements fuel rest
      else do
        let (statement, rest) ← readStatement (c :: cs)
        let rest ← readTrailing rest
        return statement :: (← readStatements fuel rest)

/-- The table that statements build; `header` is the path of the table that pairs go into. -/
def build : (header : List String) → Entries → List Statement → Option Entries
  | _, entries, [] => some entries
  | header, entries, .pair key content :: rest => do
    build header (← Entries.insertAt header key content entries) rest
  | _, entries, .table key :: rest => do
    build (key.parents ++ [key.name]) (← Entries.declare key entries) rest
  | _, entries, .element key :: rest => do
    build (key.parents ++ [key.name]) (← Entries.extend key entries) rest

/-- A byte order mark in front of the text does not count. -/
def skipMark : Text → Text
  | '\uFEFF' :: cs => cs
  | cs => cs

def read (cs : Text) : Option Datum := do
  let statements ← readStatements (cs.length + 1) (skipMark cs)
  let entries ← build [] [] statements
  return .object (Item.toMembers entries)

end SwiftManifest.Toml
