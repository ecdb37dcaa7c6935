import SwiftManifest.Proofs.Datum.Textual

/-! Values made of texts, lists and tables, in which no table repeats a name. These are the values
that any notation for tables can hold. -/

namespace SwiftManifest

inductive Datum.Tabular : Datum → Prop where
  | text (value : String) : Tabular (.text value)
  | array {elements : List Datum} (helements : ∀ d ∈ elements, Tabular d) :
      Tabular (.array elements)
  | object {members : List (String × Datum)} (hnodup : (members.map Prod.fst).Nodup)
      (hmembers : ∀ m ∈ members, Tabular m.2) : Tabular (.object members)

end SwiftManifest
