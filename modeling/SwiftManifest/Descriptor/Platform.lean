import SwiftManifest.Descriptor.Record
import SwiftManifest.Descriptor.Variant
import SwiftManifest.Model.Platform

/-! Symbolic values, platforms and conditions in descriptors. -/

namespace SwiftManifest

instance {α : Type} [Symbolic α] : Codec α where
  encode a := .text (Symbolic.symbol a)
  decode := enumerated? Symbolic.ofSymbol? fun _ _ => none

namespace Platform

def encode : Platform → Datum
  | .custom name => .object [textMember "custom" name]
  | known => .text known.identifier

def ofIdentifier? (text : String) : Option Platform :=
  known.find? fun p => p.identifier = text

def ofContent? (name value : String) : Option Platform :=
  if name = "custom" then some (.custom value) else none

instance : Codec Platform where
  encode := encode
  decode := enumerated? ofIdentifier? ofContent?

end Platform

namespace SupportedPlatform

def members (p : SupportedPlatform) : List (String × Datum) :=
  ("platform", SwiftManifest.encode p.platform) ::
    optionalMember "versionString" p.versionString ++ optionalMember "version" p.version

def decode (place : Place) (d : Datum) : Option SupportedPlatform := do
  let r ← Record.of? place ["platform", "versionString", "version"] d
  return {
    platform := ← r.required "platform"
    versionString := ← r.optional "versionString"
    version := ← r.optional "version" }

instance : Codec SupportedPlatform := ⟨fun p => .object p.members, decode⟩

end SupportedPlatform

namespace Condition

def members (c : Condition) : List (String × Datum) :=
  optionalMember "platforms" c.platforms ++ optionalMember "configuration" c.configuration

def decode (place : Place) (d : Datum) : Option Condition := do
  let r ← Record.of? place ["platforms", "configuration"] d
  return {
    platforms := ← r.optional "platforms"
    configuration := ← r.optional "configuration" }

instance : Codec Condition := ⟨fun c => .object c.members, decode⟩

end Condition

end SwiftManifest
