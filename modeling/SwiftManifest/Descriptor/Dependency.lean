import SwiftManifest.Descriptor.Platform
import SwiftManifest.Model.Dependency

/-! Package and target dependencies in descriptors. -/

namespace SwiftManifest

namespace Location

def member : Location → String × Datum
  | .path value => textMember "path" value
  | .url value => textMember "url" value

/-- The first member that names a location decides; later ones are not looked at. -/
def ofMembers? (members : List (String × Datum)) : Option Location :=
  match members.find? fun m => m.1 = "path" ∨ m.1 = "url" with
  | some ("path", .text value) => some (.path value)
  | some ("url", .text value) => some (.url value)
  | _ => none

end Location

namespace PackageDependency

def encode (d : PackageDependency) : Datum :=
  .object (d.location.member :: optionalMember "version" d.version)

/-- The location shares the object with the version, so all members but the version are held. -/
def decode (place : Place) (d : Datum) : Option PackageDependency := do
  let r ← Record.ofObject? place ["version"] d
  let version ← r.optional "version"
  match ← held? place (.object (r.members.filter fun m => m.1 ≠ "version")) with
  | .object members => return { location := ← Location.ofMembers? members, version }
  | _ => none

instance : Codec PackageDependency := ⟨encode, decode⟩

end PackageDependency

namespace TargetDependency

def encode : TargetDependency → Datum
  | .product name package condition =>
    .object (textMember "kind" "product" :: textMember "name" name ::
      optionalMember "package" package ++ optionalMember "condition" condition)
  | .target name condition =>
    .object (textMember "kind" "target" :: textMember "name" name ::
      optionalMember "condition" condition)
  | .byName name condition =>
    .object (textMember "kind" "byName" :: textMember "name" name ::
      optionalMember "condition" condition)
  | .literal name => .object [textMember "kind" "literal", textMember "name" name]

def variants : List String := ["product", "target", "byName", "literal"]

def decode (place : Place) (d : Datum) : Option TargetDependency := do
  match ← tagged? place "kind" variants d with
  | ("product", rest) =>
    let r ← Record.of? .held ["name", "package", "condition"] rest
    return .product (← r.required "name") (← r.optional "package") (← r.optional "condition")
  | ("target", rest) =>
    let r ← Record.of? .held ["name", "condition"] rest
    return .target (← r.required "name") (← r.optional "condition")
  | ("byName", rest) =>
    let r ← Record.of? .held ["name", "condition"] rest
    return .byName (← r.required "name") (← r.optional "condition")
  | ("literal", rest) =>
    let r ← Record.of? .held ["name"] rest
    return .literal (← r.required "name")
  | _ => none

instance : Codec TargetDependency := ⟨encode, decode⟩

end TargetDependency

end SwiftManifest
