import SwiftManifest.Descriptor.Format
import SwiftManifest.Proofs.Descriptor.Target
import SwiftManifest.Proofs.Json.RoundTrip

/-! Every package, every part of a package and every list of parts is read back from its own JSON
text. Two values with one text would be read back as one value, so no two values share a text: what
is missing is never mistaken for what is empty. -/

namespace SwiftManifest

open Record (required_eq optional_eq list_eq)

namespace Product

theorem fits_library (name : String) (linkage : Option Linkage) (targets : List String) :
    Fits ["name", "type", "targets"] 1
      (textMember "name" name :: (optionalMember "type" linkage ++
        [("targets", SwiftManifest.encode targets)])) :=
  (Fits.text "name" name).append ((Fits.optional "type" linkage (by decide)).append
    (.member "targets" targets (by decide)))

theorem fits_plain (name : String) (targets : List String) :
    Fits ["name", "targets"] 1
      [textMember "name" name, ("targets", SwiftManifest.encode targets)] :=
  (Fits.text "name" name).append (.member "targets" targets (by decide))

instance : LawfulCodec Product where
  depth := 2
  textual p := by
    rcases p with ⟨kind, name, targets⟩
    cases kind with
    | library linkage => exact (fits_library name linkage targets).variant "kind" "library"
    | executable => exact (fits_plain name targets).variant "kind" "executable"
    | plugin => exact (fits_plain name targets).variant "kind" "plugin"
  decode_encode place p := by
    change decode place p.encode = some p
    rcases p with ⟨kind, name, targets⟩
    have hplain := fits_plain name targets
    cases kind with
    | library linkage =>
      have hfits := fits_library name linkage targets
      simp [encode, kindMembers, decode, variants, hfits.tagged, hfits.of, required_eq,
        optional_eq, list_eq, List.lookup_append]
    | executable =>
      simp [encode, kindMembers, decode, variants, hplain.tagged, hplain.of, required_eq, list_eq]
    | plugin =>
      simp [encode, kindMembers, decode, variants, hplain.tagged, hplain.of, required_eq, list_eq]

end Product

namespace SwiftLanguageVersion

instance : LawfulCodec SwiftLanguageVersion where
  depth := 1
  textual v := by
    cases v with
    | custom version => exact (Fits.text "version" version (n := 0)).object
    | _ => exact .text _
  decode_encode place v := by
    cases v <;> rfl

end SwiftLanguageVersion

namespace Package

theorem fits (p : Package) : Fits fields 8 p.members :=
  ((((((((Fits.text "name" p.name).append
    (.optional "defaultLocalization" p.defaultLocalization (by decide))).append
    (.list "platforms" p.platforms (by decide))).append
    (.list "products" p.products (by decide))).append
    (.list "dependencies" p.dependencies (by decide))).append
    (.list "targets" p.targets (by decide))).append
    (.list "swiftLanguageVersions" p.swiftLanguageVersions (by decide))).append
    (.optional "cLanguageStandard" p.cLanguageStandard (by decide))).append
    (.optional "cxxLanguageStandard" p.cxxLanguageStandard (by decide))

instance : LawfulCodec Package where
  depth := 9
  textual p := p.fits.object
  decode_encode place p := by
    change decode place (.object p.members) = some p
    rw [decode, p.fits.of (by decide)]
    simp [members, required_eq, optional_eq, list_eq, List.lookup_append]

end Package

section Reload

variable {α : Type} [Codec α]

/-- Values and lists of values are read back from their texts on one line, so none of the texts
stands for two values. -/
structure Reloads (α : Type) [Codec α] : Prop where
  value : ∀ a : α, DescriptorFormat.json.readAs α (String.ofList (compactJson a)) = .ok a
  list : ∀ as : List α,
    DescriptorFormat.json.readAs (List α) (String.ofList (compactJson as)) = .ok as
  distinct : ∀ a b : α, compactJson a = compactJson b → a = b

variable [LawfulCodec α]

theorem readAs_json {a : α} {text : Text} (hread : Json.read text = some (encode a)) :
    DescriptorFormat.json.readAs α (String.ofList text) = .ok a := by
  simp [DescriptorFormat.readAs, DescriptorFormat.read, hread, decode_encode]

theorem readAs_compactJson (hdepth : LawfulCodec.depth α ≤ Json.nestingLimit) (a : α) :
    DescriptorFormat.json.readAs α (String.ofList (compactJson a)) = .ok a :=
  readAs_json (Json.read_compact (LawfulCodec.textual a) hdepth)

theorem reloads (hdepth : LawfulCodec.depth α < Json.nestingLimit) : Reloads α where
  value := readAs_compactJson (Nat.le_of_lt hdepth)
  list := readAs_compactJson hdepth
  distinct a b h := by
    have ha := readAs_compactJson (Nat.le_of_lt hdepth) a
    rw [h, readAs_compactJson (Nat.le_of_lt hdepth) b] at ha
    exact (Except.ok.inj ha).symm

end Reload

theorem Package.read_snapshot (p : Package) : Json.read p.snapshot = some p.encode :=
  Json.read_pretty (LawfulCodec.textual p) (by decide)

theorem Package.parse_snapshot (p : Package) :
    DescriptorFormat.json.parse (String.ofList p.snapshot) = .ok p :=
  readAs_json p.read_snapshot

/-- Packages reload from their snapshots, and every part of a package from its text on one line. -/
theorem json_round_trip :
    (∀ p : Package, DescriptorFormat.json.parse (String.ofList p.snapshot) = .ok p) ∧
    Reloads Package ∧ Reloads SupportedPlatform ∧ Reloads Product ∧ Reloads PackageDependency ∧
    Reloads Resource ∧ Reloads CompilerSetting ∧ Reloads LinkerSetting ∧
    Reloads TargetDependency ∧ Reloads Target ∧ Reloads PluginUsage ∧ Reloads Condition ∧
    Reloads PackageProvider ∧ Reloads SwiftLanguageVersion ∧ Reloads Capability ∧
    Reloads CommandCapability ∧ Reloads CommandIntent ∧ Reloads Permission := by
  refine ⟨Package.parse_snapshot, ?_⟩
  exact ⟨reloads (by decide), reloads (by decide), reloads (by decide), reloads (by decide),
    reloads (by decide), reloads (by decide), reloads (by decide), reloads (by decide),
    reloads (by decide), reloads (by decide), reloads (by decide), reloads (by decide),
    reloads (by decide), reloads (by decide), reloads (by decide), reloads (by decide),
    reloads (by decide)⟩

end SwiftManifest
