import SwiftManifest.Descriptor.Capability
import SwiftManifest.Descriptor.Dependency
import SwiftManifest.Descriptor.Setting

/-! Targets in descriptors. The parts of a target share one object with its kind, so a target is
never written by position. -/

namespace SwiftManifest

namespace Sources

def fields : List String := ["exclude", "sources", "dependencies"]

def members (s : Sources) : List (String × Datum) :=
  listMember "exclude" s.exclude ++ listMember "sources" s.sources ++
    listMember "dependencies" s.dependencies

def ofRecord? (r : Record) : Option Sources := do
  return {
    exclude := ← r.list "exclude"
    sources := ← r.list "sources"
    dependencies := ← r.list "dependencies" }

end Sources

namespace BuildSettings

def fields : List String :=
  ["resources", "cSettings", "cxxSettings", "swiftSettings", "linkerSettings", "plugins"]

def members (b : BuildSettings) : List (String × Datum) :=
  listMember "resources" b.resources ++ listMember "cSettings" b.cSettings ++
    listMember "cxxSettings" b.cxxSettings ++ listMember "swiftSettings" b.swiftSettings ++
    listMember "linkerSettings" b.linkerSettings ++ listMember "plugins" b.plugins

def ofRecord? (r : Record) : Option BuildSettings := do
  return {
    resources := ← r.list "resources"
    cSettings := ← r.list "cSettings"
    cxxSettings := ← r.list "cxxSettings"
    swiftSettings := ← r.list "swiftSettings"
    linkerSettings := ← r.list "linkerSettings"
    plugins := ← r.list "plugins" }

end BuildSettings

namespace SourceModule

def fields : List String := Sources.fields ++ BuildSettings.fields

def members (m : SourceModule) : List (String × Datum) :=
  m.toSources.members ++ m.toBuildSettings.members

def ofRecord? (r : Record) : Option SourceModule := do
  return { toSources := ← Sources.ofRecord? r, toBuildSettings := ← BuildSettings.ofRecord? r }

end SourceModule

namespace PublicModule

def fields : List String := SourceModule.fields ++ ["publicHeadersPath"]

def members (m : PublicModule) : List (String × Datum) :=
  m.toSourceModule.members ++ optionalMember "publicHeadersPath" m.publicHeadersPath

def ofRecord? (r : Record) : Option PublicModule := do
  return {
    toSourceModule := ← SourceModule.ofRecord? r
    publicHeadersPath := ← r.optional "publicHeadersPath" }

end PublicModule

namespace Plugin

def fields : List String := "capability" :: Sources.fields

def members (p : Plugin) : List (String × Datum) :=
  optionalMember "capability" p.capability ++ p.toSources.members

def ofRecord? (r : Record) : Option Plugin := do
  return { toSources := ← Sources.ofRecord? r, capability := ← r.optional "capability" }

end Plugin

namespace SystemLibrary

def fields : List String := ["pkgConfig", "providers"]

def members (l : SystemLibrary) : List (String × Datum) :=
  optionalMember "pkgConfig" l.pkgConfig ++ optionalMember "providers" l.providers

def ofRecord? (r : Record) : Option SystemLibrary := do
  return { pkgConfig := ← r.optional "pkgConfig", providers := ← r.optional "providers" }

end SystemLibrary

namespace BinaryArtifact

def fields : List String := ["url", "checksum", "dependencies"]

def members (b : BinaryArtifact) : List (String × Datum) :=
  optionalMember "url" b.url ++ optionalMember "checksum" b.checksum ++
    listMember "dependencies" b.dependencies

def ofRecord? (r : Record) : Option BinaryArtifact := do
  return {
    url := ← r.optional "url"
    checksum := ← r.optional "checksum"
    dependencies := ← r.list "dependencies" }

end BinaryArtifact

namespace TargetBody

def members : TargetBody → List (String × Datum)
  | .regular m | .executable m => m.members
  | .test m => m.members
  | .plugin p => p.members
  | .systemLibrary l => l.members
  | .binary b => b.members

/-- The kinds of targets, in their order. -/
def variants : List String :=
  ["target", "executableTarget", "testTarget", "plugin", "systemLibrary", "binaryTarget"]

def fieldsOf (kind : String) : List String :=
  match kind with
  | "target" | "executableTarget" => PublicModule.fields
  | "testTarget" => SourceModule.fields
  | "plugin" => Plugin.fields
  | "systemLibrary" => SystemLibrary.fields
  | "binaryTarget" => BinaryArtifact.fields
  | _ => []

def ofRecord? (kind : String) (r : Record) : Option TargetBody :=
  match kind with
  | "target" => (PublicModule.ofRecord? r).map .regular
  | "executableTarget" => (PublicModule.ofRecord? r).map .executable
  | "testTarget" => (SourceModule.ofRecord? r).map .test
  | "plugin" => (Plugin.ofRecord? r).map .plugin
  | "systemLibrary" => (SystemLibrary.ofRecord? r).map .systemLibrary
  | "binaryTarget" => (BinaryArtifact.ofRecord? r).map .binary
  | _ => none

end TargetBody

namespace Declared

def encodeTarget (t : Target) : Datum :=
  .object (textMember "kind" t.body.kind ::
    optionalMember "name" t.name ++ optionalMember "path" t.path ++ t.body.members)

def decodeTarget (place : Place) (d : Datum) : Option Target := do
  let (kind, rest) ← tagged? place "kind" TargetBody.variants d
  let r ← Record.ofObject? .held ("name" :: "path" :: TargetBody.fieldsOf kind) rest
  return {
    name := ← r.optional "name"
    path := ← r.optional "path"
    body := ← TargetBody.ofRecord? kind r }

instance : Codec Target := ⟨encodeTarget, decodeTarget⟩

end Declared

end SwiftManifest
