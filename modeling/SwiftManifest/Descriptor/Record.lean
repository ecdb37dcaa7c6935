import SwiftManifest.Descriptor.Codec

/-! Records in descriptors, by name or by position. Names match exactly, unknown members are
ignored, and a known member may not be repeated. -/

namespace SwiftManifest

structure Record where
  place : Place
  members : List (String × Datum)
  deriving Repr

namespace Record

def unrepeated (fields : List String) (members : List (String × Datum)) : Bool :=
  fields.all fun field => (members.filter fun m => m.1 = field).length ≤ 1

/-- A record that has to be an object. -/
def ofObject? (place : Place) (fields : List String) : Datum → Option Record
  | .object members =>
    if unrepeated fields members then some { place, members } else none
  | _ => none

/-- A record by name or by position. A list of positions may be too short; too long it may only be
when it is read directly from TOML. -/
def of? (place : Place) (fields : List String) : Datum → Option Record
  | .array elements =>
    if elements.length ≤ fields.length ∨ place = .toml then
      some { place, members := fields.zip elements }
    else none
  | d => ofObject? place fields d

variable {α : Type} [Codec α]

def required (r : Record) (field : String) : Option α := do
  decode r.place (← r.members.lookup field)

/-- A field that may be missing or null. -/
def optional (r : Record) (field : String) : Option (Option α) :=
  match r.members.lookup field with
  | none => some none
  | some .null => some none
  | some d => (decode r.place d).map some

/-- A list that is empty when it is missing. -/
def list (r : Record) (field : String) : Option (List α) :=
  match r.members.lookup field with
  | none => some []
  | some d => decode r.place d

end Record

section Members

variable {α : Type} [Codec α]

def textMember (name value : String) : String × Datum := (name, .text value)

def optionalMember (name : String) : Option α → List (String × Datum)
  | none => []
  | some a => [(name, encode a)]

/-- A list that is left out when it is empty. -/
def listMember (name : String) : List α → List (String × Datum)
  | [] => []
  | as => [(name, encode as)]

end Members

end SwiftManifest
