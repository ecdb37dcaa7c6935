import SwiftManifest.Proofs.Datum.Tabular
import SwiftManifest.Proofs.Descriptor.RoundTrip

/-! Packages are written as tabular values: no part of a package is written as null, and no object
repeats a name. The names come from the fields of each record, the values from the parts. -/

namespace SwiftManifest

class TabularCodec (α : Type) [Codec α] : Prop where
  tabular : ∀ a : α, (encode a).Tabular

instance : TabularCodec String where
  tabular value := .text value

instance {α : Type} [Codec α] [TabularCodec α] : TabularCodec (List α) where
  tabular as := by
    refine .array ?_
    intro d hd
    obtain ⟨a, -, rfl⟩ := List.mem_map.mp hd
    exact TabularCodec.tabular a

instance {α : Type} [Symbolic α] : TabularCodec α where
  tabular _ := .text _

/-- Members with tabular values. -/
def AllTabular (ms : List (String × Datum)) : Prop := ∀ m ∈ ms, m.2.Tabular

section Members

variable {α : Type} [Codec α] [TabularCodec α]

@[simp] theorem allTabular_nil : AllTabular [] := List.forall_mem_nil _

@[simp] theorem allTabular_append (ms ns : List (String × Datum)) :
    AllTabular (ms ++ ns) ↔ AllTabular ms ∧ AllTabular ns :=
  List.forall_mem_append

@[simp] theorem allTabular_encode (name : String) (a : α) (ms : List (String × Datum)) :
    AllTabular ((name, encode a) :: ms) ↔ AllTabular ms := by
  simp [AllTabular, TabularCodec.tabular a]

@[simp] theorem allTabular_textMember (name value : String) (ms : List (String × Datum)) :
    AllTabular (textMember name value :: ms) ↔ AllTabular ms :=
  allTabular_encode name value ms

@[simp] theorem allTabular_optionalMember (name : String) (o : Option α) :
    AllTabular (optionalMember name o) := by
  cases o with
  | none => exact allTabular_nil
  | some a => exact (allTabular_encode name a []).mpr allTabular_nil

@[simp] theorem allTabular_listMember (name : String) (as : List α) :
    AllTabular (listMember name as) := by
  cases as with
  | nil => exact allTabular_nil
  | cons a as => exact (allTabular_encode name (a :: as) []).mpr allTabular_nil

end Members

namespace Fits

variable {fields : List String} {n : Nat} {ms : List (String × Datum)}

theorem tabular (h : Fits fields n ms) (hfields : fields.Nodup) (hms : AllTabular ms) :
    (Datum.object ms).Tabular :=
  .object (h.nodup hfields) hms

theorem tabular_variant (h : Fits fields n ms) {tag : String} (hfields : (tag :: fields).Nodup)
    (variant : String) (hms : AllTabular ms) :
    (Datum.object (textMember tag variant :: ms)).Tabular := by
  have htagged : Fits (tag :: fields) n (textMember tag variant :: ms) :=
    (text tag variant).append h
  exact htagged.tabular hfields (by simpa using hms)

end Fits

instance : TabularCodec Platform where
  tabular p := by
    cases p with
    | custom name =>
      exact (Fits.text (n := 0) "custom" name).tabular (by decide) (by simp)
    | _ => exact .text _

instance : TabularCodec SwiftLanguageVersion where
  tabular v := by
    cases v with
    | custom version =>
      exact (Fits.text (n := 0) "version" version).tabular (by decide) (by simp)
    | _ => exact .text _

instance : TabularCodec SupportedPlatform where
  tabular p := p.fits.tabular (by decide) (by simp [SupportedPlatform.members])

instance : TabularCodec Condition where
  tabular c := c.fits.tabular (by decide) (by simp [Condition.members])

instance : TabularCodec Resource where
  tabular r := by
    cases r with
    | copy path => exact (Resource.fits_copy path).tabular_variant (by decide) "copy" (by simp)
    | process path localization =>
      exact (Resource.fits_process path localization).tabular_variant (by decide) "process"
        (by simp)

instance : TabularCodec CompilerSetting where
  tabular s := by
    rcases s with ⟨option, condition⟩
    cases option with
    | headerSearchPath path =>
      exact (Setting.fits_text "path" path condition).tabular_variant (by decide)
        "headerSearchPath" (by simp)
    | define name value =>
      exact (Setting.fits_define name value condition).tabular_variant (by decide) "define"
        (by simp)
    | unsafeFlags flags =>
      exact (Setting.fits_flags flags condition).tabular_variant (by decide) "unsafeFlags"
        (by simp)

instance : TabularCodec LinkerSetting where
  tabular s := by
    rcases s with ⟨option, condition⟩
    cases option with
    | linkedFramework framework =>
      exact (Setting.fits_text "framework" framework condition).tabular_variant (by decide)
        "linkedFramework" (by simp)
    | linkedLibrary library =>
      exact (Setting.fits_text "library" library condition).tabular_variant (by decide)
        "linkedLibrary" (by simp)
    | unsafeFlags flags =>
      exact (Setting.fits_flags flags condition).tabular_variant (by decide) "unsafeFlags"
        (by simp)

instance : TabularCodec PluginUsage where
  tabular p := p.fits.tabular (by decide) (by simp [PluginUsage.members])

instance : TabularCodec PackageDependency where
  tabular d := by
    rcases d with ⟨location, version⟩
    cases location with
    | path value =>
      exact (PackageDependency.fits_located "path" value version).tabular (by decide) (by simp)
    | url value =>
      exact (PackageDependency.fits_located "url" value version).tabular (by decide) (by simp)

instance : TabularCodec TargetDependency where
  tabular d := by
    cases d with
    | product name package condition =>
      exact (TargetDependency.fits_product name package condition).tabular_variant (by decide)
        "product" (by simp)
    | target name condition =>
      exact (TargetDependency.fits_conditional name condition).tabular_variant (by decide)
        "target" (by simp)
    | byName name condition =>
      exact (TargetDependency.fits_conditional name condition).tabular_variant (by decide)
        "byName" (by simp)
    | literal name =>
      exact (TargetDependency.fits_literal name).tabular_variant (by decide) "literal" (by simp)

instance : TabularCodec PackageProvider where
  tabular p := p.fits.tabular (by decide) (by simp [PackageProvider.members])

instance : TabularCodec CommandIntent where
  tabular i := by
    cases i with
    | custom verb description =>
      exact (CommandIntent.fits_custom verb description).tabular_variant (by decide) "custom"
        (by simp)
    | documentationGeneration =>
      exact (Fits.nil (n := 0)).tabular_variant (by decide) "documentationGeneration" (by simp)
    | sourceCodeFormatting =>
      exact (Fits.nil (n := 0)).tabular_variant (by decide) "sourceCodeFormatting" (by simp)

instance : TabularCodec Permission where
  tabular p := by
    cases p with
    | writeToPackageDirectory reason =>
      exact (Permission.fits reason).tabular_variant (by decide) "writeToPackageDirectory"
        (by simp)

theorem CommandCapability.allTabular (c : CommandCapability) : AllTabular c.members := by
  simp [members]

instance : TabularCodec Capability where
  tabular c := by
    cases c with
    | buildTool => exact (Fits.nil (n := 0)).tabular_variant (by decide) "buildTool" (by simp)
    | command c => exact c.fits.tabular_variant (by decide) "command" c.allTabular

section Layers

theorem Sources.allTabular (s : Sources) : AllTabular s.members := by
  simp [members]

theorem BuildSettings.allTabular (b : BuildSettings) : AllTabular b.members := by
  simp [members]

theorem SourceModule.allTabular (m : SourceModule) : AllTabular m.members := by
  simp [members, Sources.allTabular, BuildSettings.allTabular]

theorem PublicModule.allTabular (m : PublicModule) : AllTabular m.members := by
  simp [members, SourceModule.allTabular]

theorem Plugin.allTabular (p : Plugin) : AllTabular p.members := by
  simp [members, Sources.allTabular]

theorem SystemLibrary.allTabular (l : SystemLibrary) : AllTabular l.members := by
  simp [members]

theorem BinaryArtifact.allTabular (b : BinaryArtifact) : AllTabular b.members := by
  simp [members]

theorem TargetBody.allTabular (b : TargetBody) : AllTabular b.members := by
  cases b with
  | regular m => exact m.allTabular
  | executable m => exact m.allTabular
  | test m => exact m.allTabular
  | plugin p => exact p.allTabular
  | systemLibrary l => exact l.allTabular
  | binary b => exact b.allTabular

end Layers

instance : TabularCodec Target where
  tabular t := by
    refine (t.fits_shared.append t.body.fits).tabular_variant ?_ t.body.kind ?_
    · exact TargetBody.nodup_fields t.body.kind t.body.kind_mem_variants
    · simp [Declared.sharedMembers, t.body.allTabular]

instance : TabularCodec Product where
  tabular p := by
    rcases p with ⟨kind, name, targets⟩
    cases kind with
    | library linkage =>
      exact (Product.fits_library name linkage targets).tabular_variant (by decide) "library"
        (by simp)
    | executable =>
      exact (Product.fits_plain name targets).tabular_variant (by decide) "executable" (by simp)
    | plugin =>
      exact (Product.fits_plain name targets).tabular_variant (by decide) "plugin" (by simp)

instance : TabularCodec Package where
  tabular p := p.fits.tabular (by decide) (by simp [Package.members])

end SwiftManifest
