import SwiftManifest.Json.Numeral
import SwiftManifest.Json.String

/-! JSON text as a value. What lies deeper than the nesting limit is checked but not held. -/

namespace SwiftManifest.Json

def isSpace (c : Char) : Bool := c = ' ' || c = '\t' || c = '\n' || c = '\r'

def skipSpace (cs : Text) : Text := cs.dropWhile isSpace

def textOf (pieces : List Piece) : Datum :=
  match assemble pieces with
  | some cs => .text (String.ofList cs)
  | none => .unreadable

/-- A value that is no array and no object. -/
def readScalar : Text → Option (Datum × Text)
  | 'n' :: 'u' :: 'l' :: 'l' :: cs => some (.null, cs)
  | 't' :: 'r' :: 'u' :: 'e' :: cs => some (.bool true, cs)
  | 'f' :: 'a' :: 'l' :: 's' :: 'e' :: cs => some (.bool false, cs)
  | '"' :: cs => do
    let (pieces, cs) ← readPieces cs
    return (textOf pieces, cs)
  | cs => do
    let (numeral, cs) ← Numeral.read cs
    return (numeral.toDatum, cs)

/-- The name of a member and the colon behind it. -/
def readName (cs : Text) : Option (List Piece × Text) :=
  match skipSpace cs with
  | '"' :: cs => do
    let (pieces, cs) ← readPieces cs
    match skipSpace cs with
    | ':' :: cs => return (pieces, cs)
    | _ => none
  | _ => none

/-- What a skipped text may go on with. -/
inductive Expected where
  | value | firstElement | firstMember | member | closing
  deriving DecidableEq, Repr

/-- Passes over nested containers; `enclosing` lists their closing brackets, innermost first. -/
def skipNested : Nat → List Char → Expected → Text → Option Text
  | 0, _, _, _ => none
  | fuel + 1, enclosing, .value, cs =>
    match skipSpace cs with
    | '[' :: cs => skipNested fuel (']' :: enclosing) .firstElement cs
    | '{' :: cs => skipNested fuel ('}' :: enclosing) .firstMember cs
    | cs =>
      match readScalar cs with
      | some (_, cs) => skipNested fuel enclosing .closing cs
      | none => none
  | fuel + 1, enclosing, .firstElement, cs =>
    match skipSpace cs with
    | ']' :: cs => skipNested fuel enclosing.tail .closing cs
    | cs => skipNested fuel enclosing .value cs
  | fuel + 1, enclosing, .firstMember, cs =>
    match skipSpace cs with
    | '}' :: cs => skipNested fuel enclosing.tail .closing cs
    | cs => skipNested fuel enclosing .member cs
  | fuel + 1, enclosing, .member, cs =>
    match readName cs with
    | some (_, cs) => skipNested fuel enclosing .value cs
    | none => none
  | _ + 1, [], .closing, cs => some cs
  | fuel + 1, bracket :: enclosing, .closing, cs =>
    match skipSpace cs with
    | ',' :: cs =>
      skipNested fuel (bracket :: enclosing) (if bracket = ']' then .value else .member) cs
    | c :: cs => if c = bracket then skipNested fuel enclosing .closing cs else none
    | [] => none

/-- A container whose opening bracket is read but whose content is not held. -/
def skipContainer (closing : Char) (expected : Expected) (cs : Text) : Option (Datum × Text) :=
  (skipNested (3 * cs.length + 3) [closing] expected cs).map (Datum.unreadable, ·)

def readElements (readValue : Text → Option (Datum × Text)) :
    Nat → Text → Option (List Datum × Text)
  | 0, _ => none
  | fuel + 1, cs => do
    let (d, cs) ← readValue cs
    match skipSpace cs with
    | ',' :: cs =>
      let (ds, cs) ← readElements readValue fuel cs
      return (d :: ds, cs)
    | ']' :: cs => return ([d], cs)
    | _ => none

def readArray (readValue : Text → Option (Datum × Text)) (cs : Text) : Option (Datum × Text) :=
  match skipSpace cs with
  | ']' :: cs => some (.array [], cs)
  | cs => do
    let (ds, cs) ← readElements readValue (cs.length + 1) cs
    return (.array ds, cs)

def readMembers (readValue : Text → Option (Datum × Text)) :
    Nat → Text → Option (List (List Piece × Datum) × Text)
  | 0, _ => none
  | fuel + 1, cs => do
    let (name, cs) ← readName cs
    let (d, cs) ← readValue cs
    match skipSpace cs with
    | ',' :: cs =>
      let (ms, cs) ← readMembers readValue fuel cs
      return ((name, d) :: ms, cs)
    | '}' :: cs => return ([(name, d)], cs)
    | _ => none

/-- An object is held if all its names are. -/
def objectOf (members : List (List Piece × Datum)) : Datum :=
  match members.mapM fun (name, d) => (assemble name).map (String.ofList ·, d) with
  | some members => .object members
  | none => .unreadable

def readObject (readValue : Text → Option (Datum × Text)) (cs : Text) : Option (Datum × Text) :=
  match skipSpace cs with
  | '}' :: cs => some (.object [], cs)
  | cs => do
    let (ms, cs) ← readMembers readValue (cs.length + 1) cs
    return (objectOf ms, cs)

/-- A value, in which `room` more containers may be opened inside one another. -/
def readValue : (room : Nat) → Text → Option (Datum × Text)
  | 0, cs =>
    match skipSpace cs with
    | '[' :: cs => skipContainer ']' .firstElement cs
    | '{' :: cs => skipContainer '}' .firstMember cs
    | cs => readScalar cs
  | room + 1, cs =>
    match skipSpace cs with
    | '[' :: cs => readArray (readValue room) cs
    | '{' :: cs => readObject (readValue room) cs
    | cs => readScalar cs

def nestingLimit : Nat := 127

/-- The value of a whole text, with nothing but space around it. -/
def read (cs : Text) : Option Datum := do
  let (d, rest) ← readValue nestingLimit cs
  if skipSpace rest = [] then some d else none

end SwiftManifest.Json
