import SwiftManifest.Descriptor.Codec

/-! Values in descriptors that come in several variants: tagged ones, where the variant is named
beside its fields, and enumerated ones, where the name comes first. -/

namespace SwiftManifest

/-- A variant by its name; in a held value also by its place in the order of the variants. -/
def variantName? (place : Place) (variants : List String) : Datum → Option String
  | .text name => if name ∈ variants then some name else none
  | .index n => if place = .held then variants[n]? else none
  | _ => none

/-- The variant of a tagged value and the rest of it, which is held from then on. The tag is a
member of an object, anywhere but only once, or the first element of an array. -/
def tagged? (place : Place) (tag : String) (variants : List String) :
    Datum → Option (String × Datum)
  | .object members =>
    match members.filter fun m => m.1 = tag with
    | [(_, name)] => do
      let variant ← variantName? place variants name
      let rest ← held? place (.object (members.filter fun m => m.1 ≠ tag))
      return (variant, rest)
    | _ => none
  | .array (name :: elements) => do
    let variant ← variantName? place variants name
    let rest ← held? place (.array elements)
    return (variant, rest)
  | _ => none

/-- The rest of a tagged value whose variant has no fields: any object, but no positions. -/
def bare? : Datum → Option Unit
  | .object _ => some ()
  | .array [] => some ()
  | _ => none

/-- What stands for "nothing" behind the name of an enumerated value. -/
def isBlank : Place → Datum → Bool
  | .json, .null => true
  | .toml, .object [] => true
  | .toml, .array [] => true
  | .held, .null => true
  | .held, .object [] => true
  | _, _ => false

/-- An enumerated value: the name of one without content, or an object with one name and its
content. `plain` are the values without content, `worded` those with a text. -/
def enumerated? {α : Type} (plain : String → Option α) (worded : String → String → Option α)
    (place : Place) : Datum → Option α
  | .text name => plain name
  | .object [(name, content)] =>
    match plain name, content with
    | some a, content => if isBlank place content then some a else none
    | none, .text value => worded name value
    | none, _ => none
  | _ => none

end SwiftManifest
