import SwiftManifest.Descriptor.Platform
import SwiftManifest.Model.Target

/-! Package providers and plugin capabilities in descriptors. -/

namespace SwiftManifest

namespace PackageProvider

/-- The packages are written even when there are none. -/
def members (p : PackageProvider) : List (String × Datum) :=
  [("provider", SwiftManifest.encode p.provider), ("packages", SwiftManifest.encode p.packages)]

def decode (place : Place) (d : Datum) : Option PackageProvider := do
  let r ← Record.of? place ["provider", "packages"] d
  return { provider := ← r.required "provider", packages := ← r.list "packages" }

instance : Codec PackageProvider := ⟨fun p => .object p.members, decode⟩

end PackageProvider

namespace CommandIntent

def encode : CommandIntent → Datum
  | .documentationGeneration => .object [textMember "kind" "documentationGeneration"]
  | .sourceCodeFormatting => .object [textMember "kind" "sourceCodeFormatting"]
  | .custom verb description =>
    .object [textMember "kind" "custom", textMember "verb" verb,
      textMember "description" description]

def variants : List String := ["documentationGeneration", "sourceCodeFormatting", "custom"]

def decode (place : Place) (d : Datum) : Option CommandIntent := do
  match ← tagged? place "kind" variants d with
  | ("documentationGeneration", rest) => (bare? rest).map fun _ => .documentationGeneration
  | ("sourceCodeFormatting", rest) => (bare? rest).map fun _ => .sourceCodeFormatting
  | ("custom", rest) =>
    let r ← Record.of? .held ["verb", "description"] rest
    return .custom (← r.required "verb") (← r.required "description")
  | _ => none

instance : Codec CommandIntent := ⟨encode, decode⟩

end CommandIntent

namespace Permission

def encode : Permission → Datum
  | .writeToPackageDirectory reason =>
    .object [textMember "kind" "writeToPackageDirectory", textMember "reason" reason]

def variants : List String := ["writeToPackageDirectory"]

def decode (place : Place) (d : Datum) : Option Permission := do
  match ← tagged? place "kind" variants d with
  | ("writeToPackageDirectory", rest) =>
    let r ← Record.of? .held ["reason"] rest
    return .writeToPackageDirectory (← r.required "reason")
  | _ => none

instance : Codec Permission := ⟨encode, decode⟩

end Permission

namespace CommandCapability

/-- The permissions are written even when there are none. -/
def members (c : CommandCapability) : List (String × Datum) :=
  optionalMember "intent" c.intent ++ [("permissions", SwiftManifest.encode c.permissions)]

def decode (place : Place) (d : Datum) : Option CommandCapability := do
  let r ← Record.of? place ["intent", "permissions"] d
  return { intent := ← r.optional "intent", permissions := ← r.list "permissions" }

instance : Codec CommandCapability := ⟨fun c => .object c.members, decode⟩

end CommandCapability

namespace Capability

def encode : Capability → Datum
  | .buildTool => .object [textMember "kind" "buildTool"]
  | .command c => .object (textMember "kind" "command" :: c.members)

def variants : List String := ["buildTool", "command"]

def decode (place : Place) (d : Datum) : Option Capability := do
  match ← tagged? place "kind" variants d with
  | ("buildTool", rest) => (bare? rest).map fun _ => .buildTool
  | ("command", rest) => (CommandCapability.decode .held rest).map .command
  | _ => none

instance : Codec Capability := ⟨encode, decode⟩

end Capability

end SwiftManifest
