import SwiftManifest.Datum.Basic

/-! Values with a form in descriptors. How strictly a form is read depends on where it stands. -/

namespace SwiftManifest

/-- Where a value stands when it is read: directly in a JSON or a TOML text, or inside a value that
is read as a whole first and interpreted afterwards. -/
inductive Place where
  | json | toml | held
  deriving DecidableEq, Repr

/-- Values with a form in descriptors. -/
class Codec (α : Type) where
  encode : α → Datum
  decode : Place → Datum → Option α

export Codec (encode decode)

instance : Codec String where
  encode := .text
  decode _
    | .text value => some value
    | _ => none

instance {α : Type} [Codec α] : Codec (List α) where
  encode as := .array (as.map encode)
  decode place
    | .array elements => elements.mapM (decode place)
    | _ => none

/-- Only what is read directly from JSON may turn out to be unreadable. -/
def held? (place : Place) (d : Datum) : Option Datum :=
  if place = .json ∧ d.readable = false then none else some d

end SwiftManifest
