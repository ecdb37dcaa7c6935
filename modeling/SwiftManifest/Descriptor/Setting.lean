import SwiftManifest.Descriptor.Platform
import SwiftManifest.Model.Setting

/-! Resources, settings and plugin usages in descriptors. -/

namespace SwiftManifest

namespace Resource

def encode : Resource → Datum
  | .copy path => .object [textMember "rule" "copy", textMember "path" path]
  | .process path localization =>
    .object (textMember "rule" "process" :: textMember "path" path ::
      optionalMember "localization" localization)

def variants : List String := ["copy", "process"]

def decode (place : Place) (d : Datum) : Option Resource := do
  match ← tagged? place "rule" variants d with
  | ("copy", rest) =>
    let r ← Record.of? .held ["path"] rest
    return .copy (← r.required "path")
  | ("process", rest) =>
    let r ← Record.of? .held ["path", "localization"] rest
    return .process (← r.required "path") (← r.optional "localization")
  | _ => none

instance : Codec Resource := ⟨encode, decode⟩

end Resource

namespace CompilerOption

def members : CompilerOption → List (String × Datum)
  | .headerSearchPath path => [textMember "kind" "headerSearchPath", textMember "path" path]
  | .define name value =>
    textMember "kind" "define" :: textMember "name" name :: optionalMember "to" value
  | .unsafeFlags flags =>
    [textMember "kind" "unsafeFlags", ("flags", SwiftManifest.encode flags)]

def variants : List String := ["headerSearchPath", "define", "unsafeFlags"]

end CompilerOption

namespace LinkerOption

def members : LinkerOption → List (String × Datum)
  | .linkedFramework framework =>
    [textMember "kind" "linkedFramework", textMember "framework" framework]
  | .linkedLibrary library => [textMember "kind" "linkedLibrary", textMember "library" library]
  | .unsafeFlags flags =>
    [textMember "kind" "unsafeFlags", ("flags", SwiftManifest.encode flags)]

def variants : List String := ["linkedFramework", "linkedLibrary", "unsafeFlags"]

end LinkerOption

namespace Setting

def encodeCompiler (s : CompilerSetting) : Datum :=
  .object (s.option.members ++ optionalMember "condition" s.condition)

def decodeCompiler (place : Place) (d : Datum) : Option CompilerSetting := do
  match ← tagged? place "kind" CompilerOption.variants d with
  | ("headerSearchPath", rest) =>
    let r ← Record.of? .held ["path", "condition"] rest
    return ⟨.headerSearchPath (← r.required "path"), ← r.optional "condition"⟩
  | ("define", rest) =>
    let r ← Record.of? .held ["name", "to", "condition"] rest
    return ⟨.define (← r.required "name") (← r.optional "to"), ← r.optional "condition"⟩
  | ("unsafeFlags", rest) =>
    let r ← Record.of? .held ["flags", "condition"] rest
    return ⟨.unsafeFlags (← r.required "flags"), ← r.optional "condition"⟩
  | _ => none

instance : Codec CompilerSetting := ⟨encodeCompiler, decodeCompiler⟩

def encodeLinker (s : LinkerSetting) : Datum :=
  .object (s.option.members ++ optionalMember "condition" s.condition)

def decodeLinker (place : Place) (d : Datum) : Option LinkerSetting := do
  match ← tagged? place "kind" LinkerOption.variants d with
  | ("linkedFramework", rest) =>
    let r ← Record.of? .held ["framework", "condition"] rest
    return ⟨.linkedFramework (← r.required "framework"), ← r.optional "condition"⟩
  | ("linkedLibrary", rest) =>
    let r ← Record.of? .held ["library", "condition"] rest
    return ⟨.linkedLibrary (← r.required "library"), ← r.optional "condition"⟩
  | ("unsafeFlags", rest) =>
    let r ← Record.of? .held ["flags", "condition"] rest
    return ⟨.unsafeFlags (← r.required "flags"), ← r.optional "condition"⟩
  | _ => none

instance : Codec LinkerSetting := ⟨encodeLinker, decodeLinker⟩

end Setting

namespace PluginUsage

def members (p : PluginUsage) : List (String × Datum) :=
  textMember "name" p.name :: optionalMember "package" p.package

def decode (place : Place) (d : Datum) : Option PluginUsage := do
  let r ← Record.of? place ["name", "package"] d
  return { name := ← r.required "name", package := ← r.optional "package" }

instance : Codec PluginUsage := ⟨fun p => .object p.members, decode⟩

end PluginUsage

end SwiftManifest
