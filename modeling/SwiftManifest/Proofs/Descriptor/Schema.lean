import SwiftManifest.Descriptor.Package

/-! What a descriptor may hold: the fields of every record and variant, how each of them may
be missing, and what stands in it. The readers do not use this table. It says from outside which
parts of a value they look at, so that laws about values as they are written can be stated. -/

namespace SwiftManifest

/-- How a field may be missing. A missing list is empty; a `keptList` is written even when it is
empty. Of several `choice` fields one has to be there. -/
inductive Presence where
  | required | optional | list | keptList | choice
  deriving DecidableEq, Repr

namespace Presence

def isList : Presence → Bool
  | .list | .keptList => true
  | _ => false

end Presence

/-- The form of a value. An enumerated value is a text or an object with a name and its content;
`plain` are the names without content. In an `unread` place nothing is looked at. -/
inductive Schema where
  | text
  | enumerated (plain : List String)
  | list (element : Schema)
  | record (fields : List (String × Presence × Schema))
  | tagged (tag : String) (variants : List (String × List (String × Presence × Schema)))
  | unread

namespace Schema

abbrev Fields := List (String × Presence × Schema)

def names (fields : Fields) : List String := fields.map Prod.fst

def presence? (fields : Fields) (name : String) : Option Presence :=
  (fields.lookup name).map Prod.fst

def fieldSchema (fields : Fields) (name : String) : Schema :=
  ((fields.lookup name).map Prod.snd).getD .unread

def positionSchema (fields : Fields) (i : Nat) : Schema :=
  (fields[i]?.map fun field => field.2.2).getD .unread

/-- The fields of the variant that a tag names. -/
def variantFields (variants : List (String × Fields)) (tag? : Option Datum) : Fields :=
  ((tag?.bind (variantName? .held (variants.map Prod.fst))).bind fun variant =>
    variants.lookup variant).getD []

/-- The fields that are known in an object. -/
def fieldsOf : Schema → List (String × Datum) → Fields
  | .record fields, _ => fields
  | .tagged tag variants, members =>
    (tag, .required, .unread) :: variantFields variants (members.lookup tag)
  | _, _ => []

/-- Whether an object is read by the names of its members. -/
def isRecord : Schema → Bool
  | .record _ | .tagged _ _ => true
  | _ => false

/-- What stands in a member of an object. -/
def member (s : Schema) (members : List (String × Datum)) (name : String) : Schema :=
  fieldSchema (s.fieldsOf members) name

/-- What stands at a position of an array. -/
def element : Schema → List Datum → Nat → Schema
  | .list s, _, _ => s
  | .record fields, _, i => positionSchema fields i
  | .tagged _ variants, elements, i + 1 =>
    positionSchema (variantFields variants elements.head?) i
  | _, _, _ => .unread

end Schema

open Schema (Fields)

/-- Values with a schema. -/
class Described (α : Type) where
  schema : Schema

export Described (schema)

def field (name : String) (presence : Presence) (α : Type) [Described α] :
    String × Presence × Schema :=
  (name, presence, schema α)

instance : Described String := ⟨.text⟩

instance {α : Type} [Described α] : Described (List α) := ⟨.list (schema α)⟩

instance {α : Type} [Symbolic α] : Described α :=
  ⟨.enumerated ((Symbolic.all : List α).map Symbolic.symbol)⟩

instance : Described Platform := ⟨.enumerated (Platform.known.map Platform.identifier)⟩

instance : Described SupportedPlatform :=
  ⟨.record [field "platform" .required Platform, field "versionString" .optional String,
    field "version" .optional String]⟩

instance : Described Condition :=
  ⟨.record [field "platforms" .optional (List SupportedPlatform),
    field "configuration" .optional BuildConfiguration]⟩

instance : Described Resource :=
  ⟨.tagged "rule" [
    ("copy", [field "path" .required String]),
    ("process", [field "path" .required String, field "localization" .optional String])]⟩

instance : Described CompilerSetting :=
  ⟨.tagged "kind" [
    ("headerSearchPath",
      [field "path" .required String, field "condition" .optional Condition]),
    ("define",
      [field "name" .required String, field "to" .optional String,
        field "condition" .optional Condition]),
    ("unsafeFlags",
      [field "flags" .required (List String), field "condition" .optional Condition])]⟩

instance : Described LinkerSetting :=
  ⟨.tagged "kind" [
    ("linkedFramework",
      [field "framework" .required String, field "condition" .optional Condition]),
    ("linkedLibrary",
      [field "library" .required String, field "condition" .optional Condition]),
    ("unsafeFlags",
      [field "flags" .required (List String), field "condition" .optional Condition])]⟩

instance : Described PluginUsage :=
  ⟨.record [field "name" .required String, field "package" .optional String]⟩

instance : Described PackageDependency :=
  ⟨.record [field "path" .choice String, field "url" .choice String,
    field "version" .optional String]⟩

instance : Described TargetDependency :=
  ⟨.tagged "kind" [
    ("product",
      [field "name" .required String, field "package" .optional String,
        field "condition" .optional Condition]),
    ("target", [field "name" .required String, field "condition" .optional Condition]),
    ("byName", [field "name" .required String, field "condition" .optional Condition]),
    ("literal", [field "name" .required String])]⟩

instance : Described PackageProvider :=
  ⟨.record [field "provider" .required ProviderKind, field "packages" .keptList (List String)]⟩

instance : Described CommandIntent :=
  ⟨.tagged "kind" [
    ("documentationGeneration", []),
    ("sourceCodeFormatting", []),
    ("custom", [field "verb" .required String, field "description" .required String])]⟩

instance : Described Permission :=
  ⟨.tagged "kind" [("writeToPackageDirectory", [field "reason" .required String])]⟩

def CommandCapability.described : Fields :=
  [field "intent" .optional CommandIntent, field "permissions" .keptList (List Permission)]

instance : Described CommandCapability := ⟨.record CommandCapability.described⟩

instance : Described Capability :=
  ⟨.tagged "kind" [("buildTool", []), ("command", CommandCapability.described)]⟩

def Sources.described : Fields :=
  [field "exclude" .list (List String), field "sources" .list (List String),
    field "dependencies" .list (List TargetDependency)]

def BuildSettings.described : Fields :=
  [field "resources" .list (List Resource), field "cSettings" .list (List CompilerSetting),
    field "cxxSettings" .list (List CompilerSetting),
    field "swiftSettings" .list (List CompilerSetting),
    field "linkerSettings" .list (List LinkerSetting), field "plugins" .list (List PluginUsage)]

def SourceModule.described : Fields := Sources.described ++ BuildSettings.described

def PublicModule.described : Fields :=
  SourceModule.described ++ [field "publicHeadersPath" .optional String]

def Plugin.described : Fields := field "capability" .optional Capability :: Sources.described

def SystemLibrary.described : Fields :=
  [field "pkgConfig" .optional String, field "providers" .optional (List PackageProvider)]

def BinaryArtifact.described : Fields :=
  [field "url" .optional String, field "checksum" .optional String,
    field "dependencies" .list (List TargetDependency)]

/-- The fields of a kind of target. -/
def TargetBody.described : String → Fields
  | "target" | "executableTarget" => PublicModule.described
  | "testTarget" => SourceModule.described
  | "plugin" => Plugin.described
  | "systemLibrary" => SystemLibrary.described
  | "binaryTarget" => BinaryArtifact.described
  | _ => []

/-- Every kind of target has a name and a path. -/
def Declared.described (kind : String) : Fields :=
  field "name" .optional String :: field "path" .optional String :: TargetBody.described kind

instance : Described Target :=
  ⟨.tagged "kind" (TargetBody.variants.map fun kind => (kind, Declared.described kind))⟩

instance : Described Product :=
  ⟨.tagged "kind" [
    ("library",
      [field "name" .required String, field "type" .optional Linkage,
        field "targets" .keptList (List String)]),
    ("executable",
      [field "name" .required String, field "targets" .keptList (List String)]),
    ("plugin",
      [field "name" .required String, field "targets" .keptList (List String)])]⟩

instance : Described SwiftLanguageVersion := ⟨.enumerated ["v4", "v4_2", "v5", "v6"]⟩

def Package.described : Fields :=
  [field "name" .required String, field "defaultLocalization" .optional String,
    field "platforms" .list (List SupportedPlatform), field "products" .list (List Product),
    field "dependencies" .list (List PackageDependency), field "targets" .list (List Target),
    field "swiftLanguageVersions" .list (List SwiftLanguageVersion),
    field "cLanguageStandard" .optional CLanguageStandard,
    field "cxxLanguageStandard" .optional CxxLanguageStandard]

instance : Described Package := ⟨.record Package.described⟩

/-- The fields of a target that are looked at are the described ones. No two of them have one name,
and none has the name of the tag. -/
theorem Declared.names_described : ∀ kind ∈ TargetBody.variants,
    Schema.names (described kind) = "name" :: "path" :: TargetBody.fieldsOf kind ∧
      ("kind" :: Schema.names (described kind)).Nodup := by
  decide

end SwiftManifest
