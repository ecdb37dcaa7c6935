import SwiftManifest.Proofs.Descriptor.Platform
import SwiftManifest.Descriptor.Setting

/-! Resources, settings and plugin usages are read back. The members of a variant stand behind its
tag, and no variant has a field of the tag's name. -/

namespace SwiftManifest

open Record (required_eq optional_eq list_eq)

namespace Resource

theorem fits_copy (path : String) : Fits ["path"] 0 [textMember "path" path] :=
  .text "path" path

theorem fits_process (path : String) (localization : Option String) :
    Fits ["path", "localization"] 0
      (textMember "path" path :: optionalMember "localization" localization) :=
  (Fits.text "path" path).append (.optional "localization" localization (by decide))

instance : LawfulCodec Resource where
  depth := 1
  textual r := by
    cases r with
    | copy path => exact (fits_copy path).variant "rule" "copy"
    | process path localization => exact (fits_process path localization).variant "rule" "process"
  decode_encode place r := by
    change Resource.decode place r.encode = some r
    cases r with
    | copy path =>
      rw [encode, decode, (fits_copy path).tagged (by decide) (by decide)]
      simp [(fits_copy path).of, required_eq]
    | process path localization =>
      rw [encode, decode, (fits_process path localization).tagged (by decide) (by decide)]
      simp [(fits_process path localization).of, required_eq, optional_eq]

end Resource

namespace Setting

/-- An option of one text, with the condition behind it. -/
theorem fits_text (name value : String) (condition : Option Condition) :
    Fits [name, "condition"] 4
      (textMember name value :: optionalMember "condition" condition) :=
  (Fits.text name value).append (.optional "condition" condition (by decide))

theorem fits_define (name : String) (value : Option String) (condition : Option Condition) :
    Fits ["name", "to", "condition"] 4
      (textMember "name" name :: (optionalMember "to" value ++
        optionalMember "condition" condition)) :=
  (Fits.text "name" name).append ((Fits.optional "to" value (by decide)).append
    (.optional "condition" condition (by decide)))

theorem fits_flags (flags : List String) (condition : Option Condition) :
    Fits ["flags", "condition"] 4
      (("flags", SwiftManifest.encode flags) :: optionalMember "condition" condition) :=
  (Fits.member "flags" flags (by decide)).append (.optional "condition" condition (by decide))

instance : LawfulCodec CompilerSetting where
  depth := 5
  textual s := by
    rcases s with ⟨option, condition⟩
    cases option with
    | headerSearchPath path =>
      exact (fits_text "path" path condition).variant "kind" "headerSearchPath"
    | define name value => exact (fits_define name value condition).variant "kind" "define"
    | unsafeFlags flags => exact (fits_flags flags condition).variant "kind" "unsafeFlags"
  decode_encode place s := by
    change decodeCompiler place (encodeCompiler s) = some s
    rcases s with ⟨option, condition⟩
    cases option with
    | headerSearchPath path =>
      have hfits := fits_text "path" path condition
      simp [encodeCompiler, decodeCompiler, CompilerOption.members, CompilerOption.variants,
        hfits.tagged, hfits.of, required_eq, optional_eq]
    | define name value =>
      have hfits := fits_define name value condition
      simp [encodeCompiler, decodeCompiler, CompilerOption.members, CompilerOption.variants,
        hfits.tagged, hfits.of, required_eq, optional_eq, List.lookup_append]
    | unsafeFlags flags =>
      have hfits := fits_flags flags condition
      simp [encodeCompiler, decodeCompiler, CompilerOption.members, CompilerOption.variants,
        hfits.tagged, hfits.of, required_eq, optional_eq]

instance : LawfulCodec LinkerSetting where
  depth := 5
  textual s := by
    rcases s with ⟨option, condition⟩
    cases option with
    | linkedFramework framework =>
      exact (fits_text "framework" framework condition).variant "kind" "linkedFramework"
    | linkedLibrary library =>
      exact (fits_text "library" library condition).variant "kind" "linkedLibrary"
    | unsafeFlags flags => exact (fits_flags flags condition).variant "kind" "unsafeFlags"
  decode_encode place s := by
    change decodeLinker place (encodeLinker s) = some s
    rcases s with ⟨option, condition⟩
    cases option with
    | linkedFramework framework =>
      have hfits := fits_text "framework" framework condition
      simp [encodeLinker, decodeLinker, LinkerOption.members, LinkerOption.variants,
        hfits.tagged, hfits.of, required_eq, optional_eq]
    | linkedLibrary library =>
      have hfits := fits_text "library" library condition
      simp [encodeLinker, decodeLinker, LinkerOption.members, LinkerOption.variants,
        hfits.tagged, hfits.of, required_eq, optional_eq]
    | unsafeFlags flags =>
      have hfits := fits_flags flags condition
      simp [encodeLinker, decodeLinker, LinkerOption.members, LinkerOption.variants,
        hfits.tagged, hfits.of, required_eq, optional_eq]

end Setting

namespace PluginUsage

theorem fits (p : PluginUsage) : Fits ["name", "package"] 0 p.members :=
  (Fits.text "name" p.name).append (.optional "package" p.package (by decide))

instance : LawfulCodec PluginUsage where
  depth := 1
  textual p := p.fits.object
  decode_encode place p := by
    change PluginUsage.decode place (.object p.members) = some p
    rw [PluginUsage.decode, p.fits.of (by decide)]
    simp [members, required_eq, optional_eq]

end PluginUsage

end SwiftManifest
