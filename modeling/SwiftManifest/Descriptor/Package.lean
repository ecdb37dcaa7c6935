import SwiftManifest.Descriptor.Target
import SwiftManifest.Model.Package

/-! Products, language versions and packages in descriptors. -/

namespace SwiftManifest

namespace Product

def kindMembers (p : Product) : List (String × Datum) :=
  match p.kind with
  | .library linkage =>
    textMember "kind" "library" :: textMember "name" p.name :: optionalMember "type" linkage
  | .executable => [textMember "kind" "executable", textMember "name" p.name]
  | .plugin => [textMember "kind" "plugin", textMember "name" p.name]

/-- The targets are written even when there are none. -/
def encode (p : Product) : Datum :=
  .object (p.kindMembers ++ [("targets", SwiftManifest.encode p.targets)])

def variants : List String := ["library", "executable", "plugin"]

def decode (place : Place) (d : Datum) : Option Product := do
  match ← tagged? place "kind" variants d with
  | ("library", rest) =>
    let r ← Record.of? .held ["name", "type", "targets"] rest
    return {
      kind := .library (← r.optional "type")
      name := ← r.required "name"
      targets := ← r.list "targets" }
  | ("executable", rest) =>
    let r ← Record.of? .held ["name", "targets"] rest
    return { kind := .executable, name := ← r.required "name", targets := ← r.list "targets" }
  | ("plugin", rest) =>
    let r ← Record.of? .held ["name", "targets"] rest
    return { kind := .plugin, name := ← r.required "name", targets := ← r.list "targets" }
  | _ => none

instance : Codec Product := ⟨encode, decode⟩

end Product

namespace SwiftLanguageVersion

def encode : SwiftLanguageVersion → Datum
  | .v4 => .text "v4"
  | .v4_2 => .text "v4_2"
  | .v5 => .text "v5"
  | .v6 => .text "v6"
  | .custom version => .object [textMember "version" version]

def ofName? : String → Option SwiftLanguageVersion
  | "v4" => some .v4
  | "v4_2" => some .v4_2
  | "v5" => some .v5
  | "v6" => some .v6
  | _ => none

def ofContent? (name value : String) : Option SwiftLanguageVersion :=
  if name = "version" then some (.custom value) else none

instance : Codec SwiftLanguageVersion where
  encode := encode
  decode := enumerated? ofName? ofContent?

end SwiftLanguageVersion

namespace Package

def fields : List String :=
  ["name", "defaultLocalization", "platforms", "products", "dependencies", "targets",
    "swiftLanguageVersions", "cLanguageStandard", "cxxLanguageStandard"]

def members (p : Package) : List (String × Datum) :=
  textMember "name" p.name ::
    optionalMember "defaultLocalization" p.defaultLocalization ++
    listMember "platforms" p.platforms ++ listMember "products" p.products ++
    listMember "dependencies" p.dependencies ++ listMember "targets" p.targets ++
    listMember "swiftLanguageVersions" p.swiftLanguageVersions ++
    optionalMember "cLanguageStandard" p.cLanguageStandard ++
    optionalMember "cxxLanguageStandard" p.cxxLanguageStandard

def encode (p : Package) : Datum := .object p.members

def decode (place : Place) (d : Datum) : Option Package := do
  let r ← Record.of? place fields d
  return {
    name := ← r.required "name"
    defaultLocalization := ← r.optional "defaultLocalization"
    platforms := ← r.list "platforms"
    products := ← r.list "products"
    dependencies := ← r.list "dependencies"
    targets := ← r.list "targets"
    swiftLanguageVersions := ← r.list "swiftLanguageVersions"
    cLanguageStandard := ← r.optional "cLanguageStandard"
    cxxLanguageStandard := ← r.optional "cxxLanguageStandard" }

instance : Codec Package := ⟨encode, decode⟩

end Package

end SwiftManifest
