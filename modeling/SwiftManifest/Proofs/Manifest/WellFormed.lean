import SwiftManifest.Expression.Package
import SwiftManifest.Proofs.Expression.WellFormed
import SwiftManifest.Proofs.Manifest.Traversal

/-! The names in a manifest. All of them are fixed except version symbols: when those are words, the
expression of a package is well formed. -/

namespace SwiftManifest

open Expression (AllWellFormed allWellFormed_iff)

namespace SupportedPlatform

/-- A version symbol of ASCII letters, digits and underscores. -/
def Plain (p : SupportedPlatform) : Prop :=
  ∀ version ∈ p.version, ∀ c ∈ version.toList, wordChar c

instance (p : SupportedPlatform) : Decidable p.Plain :=
  inferInstanceAs (Decidable (∀ version ∈ p.version, _))

end SupportedPlatform

def Package.Plain (p : Package) : Prop :=
  ∀ s ∈ p.entries, s.Plain

instance (p : Package) : Decidable p.Plain :=
  inferInstanceAs (Decidable (∀ s ∈ p.entries, _))

section Arguments

variable {bare : Prop} {α : Type} [Expressible α] {label : String}

@[simp] theorem wellFormed_literalArgument {value : String} :
    (literalArgument label value).WellFormed bare ↔ IsKeyword label := by
  constructor
  · intro h
    exact h.1
  · intro h
    exact ⟨h, trivial⟩

theorem wellFormed_optionalLiteral (h : IsKeyword label) (value : Option String) :
    AllWellFormed bare (optionalLiteral label value) := by
  cases value with
  | none => trivial
  | some value => simpa [optionalLiteral] using h

theorem wellFormed_optionalStrings (h : IsKeyword label) (values : List String) :
    AllWellFormed bare (optionalStrings label values) := by
  cases values with
  | nil => trivial
  | cons value values => simpa [optionalStrings, Expression.WellFormed] using h

theorem wellFormed_optionalNode (h : IsKeyword label) {value : Option α}
    (hvalue : ∀ a ∈ value, (expression a).WellFormed bare) :
    AllWellFormed bare (optionalNode label value) := by
  cases value with
  | none => trivial
  | some a => exact ⟨⟨h, hvalue a rfl⟩, trivial⟩

theorem wellFormed_list {as : List α} (has : ∀ a ∈ as, (expression a).WellFormed bare) :
    (expression as).WellFormed bare := by
  apply allWellFormed_iff.mpr
  intro e he
  obtain ⟨a, ha, rfl⟩ := List.mem_map.mp he
  exact has a ha

theorem wellFormed_optionalList (h : IsKeyword label) {as : List α}
    (has : ∀ a ∈ as, (expression a).WellFormed bare) :
    AllWellFormed bare (optionalList label as) := by
  cases as with
  | nil => trivial
  | cons a as => exact ⟨⟨h, wellFormed_list has⟩, trivial⟩

theorem wellFormed_optionalSymbol {β : Type} [Symbolic β] (hlabel : IsKeyword label)
    (h : ∀ b : β, ∀ c ∈ (Symbolic.symbol b).toList, wordChar c) (value : Option β) :
    AllWellFormed bare (optionalNode label value) := by
  apply wellFormed_optionalNode hlabel
  intro b _
  exact h b

end Arguments

variable {bare : Prop}

namespace SupportedPlatform

/-- The expression of a platform that the manifest knows by name. -/
theorem expression_of_known {p : SupportedPlatform} (h : p.platform.isCustom = false) :
    p.expression =
      match p.literalVersion, p.version with
      | some version, _ => .inlineCall ("." ++ p.platform.identifier) [.literal version]
      | none, some version => .inlineCall ("." ++ p.platform.identifier) [.symbol version]
      | none, none => .symbol p.platform.identifier := by
  unfold expression
  cases hplatform : p.platform with
  | custom name => simp [hplatform, Platform.isCustom] at h
  | _ => rfl

theorem exists_custom {p : SupportedPlatform} (h : p.platform.isCustom = true) :
    ∃ name, p.platform = .custom name := by
  cases hplatform : p.platform <;> simp_all [Platform.isCustom]

theorem expression_of_custom {p : SupportedPlatform} {name : String}
    (h : p.platform = .custom name) :
    p.expression = .inlineCall ".custom"
      (.literal name :: optionalLiteral "versionString" p.literalVersion) := by
  simp [expression, h]

theorem wordChar_identifier {platform : Platform} (h : platform.isCustom = false) :
    ∀ c ∈ platform.identifier.toList, wordChar c := by
  cases platform with
  | custom name => simp [Platform.isCustom] at h
  | _ => decide

theorem isKeyword_identifier {platform : Platform} (h : platform.isCustom = false) :
    IsKeyword ("." ++ platform.identifier) := by
  constructor
  · simp
  · intro c hc
    rw [String.toList_append] at hc
    exact nameChar_of_mem_symbol (wordChar_identifier h) c hc

theorem wellFormed {p : SupportedPlatform} (h : p.Plain) : (expression p).WellFormed bare := by
  cases hcustom : p.platform.isCustom with
  | true =>
    obtain ⟨name, hname⟩ := exists_custom hcustom
    rw [expression_of_custom hname]
    exact ⟨by decide, trivial, wellFormed_optionalLiteral (by decide) _⟩
  | false =>
    rw [expression_of_known hcustom]
    split
    · exact ⟨isKeyword_identifier hcustom, trivial, trivial⟩
    · rename_i version _ hversion
      exact ⟨isKeyword_identifier hcustom, h version hversion, trivial⟩
    · exact wordChar_identifier hcustom

end SupportedPlatform

namespace Condition

theorem wellFormed {c : Condition} (h : ∀ s ∈ entries (some c), s.Plain) :
    c.expression.WellFormed bare := by
  rcases c with ⟨platforms, configuration⟩
  refine ⟨by decide, (Expression.allWellFormed_append _ _).mpr ⟨?_, ?_⟩⟩
  · apply wellFormed_optionalNode (by decide)
    intro ps hps
    obtain rfl : platforms = some ps := hps
    apply wellFormed_list
    intro s hs
    exact SupportedPlatform.wellFormed (h s hs)
  · apply wellFormed_optionalSymbol (by decide)
    intro b
    cases b <;> decide

theorem wellFormed_optional {c : Option Condition} {label : String} (hlabel : IsKeyword label)
    (h : ∀ s ∈ entries c, s.Plain) : AllWellFormed bare (optionalNode label c) := by
  apply wellFormed_optionalNode hlabel
  intro c' hc
  obtain rfl : c = some c' := hc
  exact wellFormed h

theorem wellFormed_trailing {c : Option Condition} (h : ∀ s ∈ entries c, s.Plain) :
    AllWellFormed bare (trailing c) := by
  cases c with
  | none => trivial
  | some c => exact ⟨wellFormed h, trivial⟩

end Condition

theorem PackageDependency.wellFormed (d : PackageDependency) :
    d.expression.WellFormed bare := by
  rcases d with ⟨location, version⟩
  refine ⟨by decide, nofun, ?_, ?_⟩
  · cases location with
    | path value => exact wellFormed_literalArgument.mpr (by decide)
    | url value => exact wellFormed_literalArgument.mpr (by decide)
  · cases version with
    | none => trivial
    | some constraint => exact ⟨trivial, trivial⟩

namespace TargetDependency

theorem wellFormed {d : TargetDependency} (h : ∀ s ∈ d.entries, s.Plain) :
    d.expression.WellFormed bare := by
  cases d with
  | product name package condition =>
    refine ⟨by decide, nofun, wellFormed_literalArgument.mpr (by decide),
      (Expression.allWellFormed_append _ _).mpr ⟨?_, ?_⟩⟩
    · exact wellFormed_optionalLiteral (by decide) package
    · exact Condition.wellFormed_optional (by decide) h
  | target name condition =>
    refine ⟨by decide, nofun, wellFormed_literalArgument.mpr (by decide), ?_⟩
    exact Condition.wellFormed_optional (by decide) h
  | byName name condition =>
    refine ⟨by decide, nofun, wellFormed_literalArgument.mpr (by decide), ?_⟩
    exact Condition.wellFormed_optional (by decide) h
  | literal name => trivial

theorem wellFormed_optionalList {label : String} (hlabel : IsKeyword label)
    {ds : List TargetDependency} (h : ∀ s ∈ ds.flatMap entries, s.Plain) :
    AllWellFormed bare (optionalList label ds) := by
  rw [List.forall_mem_flatMap] at h
  apply SwiftManifest.wellFormed_optionalList hlabel
  intro d hd
  exact wellFormed (h d hd)

end TargetDependency

theorem Resource.wellFormed (r : Resource) : r.expression.WellFormed bare := by
  cases r with
  | copy path => exact ⟨by decide, trivial, trivial⟩
  | process path localization =>
    exact ⟨by decide, trivial, wellFormed_optionalLiteral (by decide) _⟩

namespace CompilerOption

theorem isKeyword (o : CompilerOption) : IsKeyword o.keyword := by
  cases o with
  | headerSearchPath path => exact (by decide : IsKeyword ".headerSearchPath")
  | define name value => exact (by decide : IsKeyword ".define")
  | unsafeFlags flags => exact (by decide : IsKeyword ".unsafeFlags")

theorem wellFormed_arguments (o : CompilerOption) : AllWellFormed bare o.arguments := by
  cases o with
  | define name value => exact ⟨trivial, wellFormed_optionalLiteral (by decide) _⟩
  | _ => exact ⟨trivial, trivial⟩

end CompilerOption

namespace LinkerOption

theorem isKeyword (o : LinkerOption) : IsKeyword o.keyword := by
  cases o with
  | linkedFramework framework => exact (by decide : IsKeyword ".linkedFramework")
  | linkedLibrary library => exact (by decide : IsKeyword ".linkedLibrary")
  | unsafeFlags flags => exact (by decide : IsKeyword ".unsafeFlags")

theorem wellFormed_arguments (o : LinkerOption) : AllWellFormed bare o.arguments := by
  cases o <;> exact ⟨trivial, trivial⟩

end LinkerOption

namespace Setting

theorem wellFormed_compiler {s : CompilerSetting} (h : ∀ p ∈ s.entries, p.Plain) :
    (expression s).WellFormed bare :=
  ⟨s.option.isKeyword, (Expression.allWellFormed_append _ _).mpr
    ⟨s.option.wellFormed_arguments, Condition.wellFormed_trailing h⟩⟩

theorem wellFormed_linker {s : LinkerSetting} (h : ∀ p ∈ s.entries, p.Plain) :
    (expression s).WellFormed bare :=
  ⟨s.option.isKeyword, (Expression.allWellFormed_append _ _).mpr
    ⟨s.option.wellFormed_arguments, Condition.wellFormed_trailing h⟩⟩

end Setting

theorem PluginUsage.wellFormed (p : PluginUsage) : p.expression.WellFormed bare :=
  ⟨by decide, wellFormed_literalArgument.mpr (by decide), wellFormed_optionalLiteral (by decide) _⟩

theorem ProviderKind.isKeyword (k : ProviderKind) : IsKeyword ("." ++ k.symbol) := by
  cases k <;> decide

theorem PackageProvider.wellFormed (p : PackageProvider) : p.expression.WellFormed bare :=
  ⟨p.provider.isKeyword, trivial, trivial⟩

theorem CommandIntent.wellFormed (i : CommandIntent) : i.expression.WellFormed bare := by
  cases i with
  | custom verb description =>
    exact ⟨by decide, wellFormed_literalArgument.mpr (by decide),
      wellFormed_literalArgument.mpr (by decide), trivial⟩
  | _ => exact ⟨by decide, trivial⟩

theorem Permission.wellFormed (p : Permission) : p.expression.WellFormed bare :=
  ⟨by decide, wellFormed_literalArgument.mpr (by decide), trivial⟩

theorem Capability.wellFormed (c : Capability) : c.expression.WellFormed bare := by
  cases c with
  | buildTool => exact ⟨by decide, trivial⟩
  | command details =>
    refine ⟨by decide, (Expression.allWellFormed_append _ _).mpr ⟨?_, ⟨by decide, ?_⟩, trivial⟩⟩
    · apply wellFormed_optionalNode (by decide)
      intro i _
      exact i.wellFormed
    · apply wellFormed_list
      intro p _
      exact p.wellFormed

theorem Product.wellFormed (p : Product) : p.expression.WellFormed bare := by
  rcases p with ⟨kind, name, targets⟩
  refine ⟨?_, wellFormed_literalArgument.mpr (by decide),
    (Expression.allWellFormed_append _ _).mpr ⟨?_, ⟨by decide, trivial⟩, trivial⟩⟩
  · cases kind with
    | library linkage => exact (by decide : IsKeyword ".library")
    | executable => exact (by decide : IsKeyword ".executable")
    | plugin => exact (by decide : IsKeyword ".plugin")
  · apply wellFormed_optionalSymbol (by decide)
    intro b
    cases b <;> decide

theorem SwiftLanguageVersion.wellFormed (v : SwiftLanguageVersion) :
    v.expression.WellFormed bare := by
  cases v with
  | custom version => exact ⟨by decide, trivial, trivial⟩
  | v4 => exact (by decide : ∀ c ∈ "v4".toList, wordChar c)
  | v4_2 => exact (by decide : ∀ c ∈ "v4_2".toList, wordChar c)
  | v5 => exact (by decide : ∀ c ∈ "v5".toList, wordChar c)
  | v6 => exact (by decide : ∀ c ∈ "v6".toList, wordChar c)

namespace Sources

theorem wellFormed_dependencies {s : Sources} (h : ∀ p ∈ s.entries, p.Plain) :
    AllWellFormed bare s.dependencyArguments :=
  TargetDependency.wellFormed_optionalList (by decide) h

theorem wellFormed_files (s : Sources) : AllWellFormed bare s.fileArguments := by
  apply (Expression.allWellFormed_append _ _).mpr
  constructor
  · exact wellFormed_optionalStrings (by decide) s.exclude
  · exact wellFormed_optionalStrings (by decide) s.sources

end Sources

namespace BuildSettings

theorem wellFormed_resources (b : BuildSettings) : AllWellFormed bare b.resourceArguments := by
  apply wellFormed_optionalList (by decide)
  intro r _
  exact r.wellFormed

theorem wellFormed_compilerSettings {label : String} (hlabel : IsKeyword label)
    {ss : List CompilerSetting} (h : ∀ s ∈ ss, ∀ p ∈ s.entries, p.Plain) :
    AllWellFormed bare (optionalList label ss) := by
  apply wellFormed_optionalList hlabel
  intro s hs
  exact Setting.wellFormed_compiler (h s hs)

theorem wellFormed_linkerSettings {label : String} (hlabel : IsKeyword label)
    {ss : List LinkerSetting} (h : ∀ s ∈ ss, ∀ p ∈ s.entries, p.Plain) :
    AllWellFormed bare (optionalList label ss) := by
  apply wellFormed_optionalList hlabel
  intro s hs
  exact Setting.wellFormed_linker (h s hs)

theorem wellFormed_settings {b : BuildSettings} (h : ∀ p ∈ b.entries, p.Plain) :
    AllWellFormed bare b.settingArguments := by
  simp only [entries, List.forall_mem_append, List.forall_mem_flatMap] at h
  rcases h with ⟨⟨⟨hc, hcxx⟩, hswift⟩, hlinker⟩
  simp only [settingArguments, Expression.allWellFormed_append, and_assoc]
  refine ⟨?_, ?_, ?_, ?_, ?_⟩
  · exact wellFormed_compilerSettings (by decide) hc
  · exact wellFormed_compilerSettings (by decide) hcxx
  · exact wellFormed_compilerSettings (by decide) hswift
  · exact wellFormed_linkerSettings (by decide) hlinker
  · apply wellFormed_optionalList (by decide)
    intro p _
    exact p.wellFormed

end BuildSettings

theorem SourceModule.wellFormed_arguments {name path : Option String} {m : SourceModule}
    {headers : List Expression} (h : ∀ p ∈ m.entries, p.Plain)
    (hheaders : AllWellFormed bare headers) :
    AllWellFormed bare (m.arguments name path headers) := by
  rcases List.forall_mem_append.mp h with ⟨hsources, hsettings⟩
  simp only [arguments, Expression.allWellFormed_append, and_assoc]
  refine ⟨?_, ?_, ?_, ?_, ?_, hheaders, ?_⟩
  · exact wellFormed_optionalLiteral (by decide) name
  · exact Sources.wellFormed_dependencies hsources
  · exact wellFormed_optionalLiteral (by decide) path
  · exact Sources.wellFormed_files _
  · exact BuildSettings.wellFormed_resources _
  · exact BuildSettings.wellFormed_settings hsettings

theorem wellFormed_nameOrNil (name : Option String) : (nameOrNil name).WellFormed bare := by
  cases name with
  | none => exact ⟨by decide, trivial⟩
  | some name => exact wellFormed_literalArgument.mpr (by decide)

namespace TargetBody

theorem isKeyword (body : TargetBody) : IsKeyword body.keyword := by
  cases body with
  | regular m => exact (by decide : IsKeyword ".target")
  | executable m => exact (by decide : IsKeyword ".executableTarget")
  | test m => exact (by decide : IsKeyword ".testTarget")
  | plugin p => exact (by decide : IsKeyword ".plugin")
  | systemLibrary l => exact (by decide : IsKeyword ".systemLibrary")
  | binary b => exact (by decide : IsKeyword ".binaryTarget")

theorem wellFormed_arguments {name path : Option String} {body : TargetBody}
    (h : ∀ p ∈ body.entries, p.Plain) : AllWellFormed bare (body.arguments name path) := by
  cases body with
  | regular m =>
    exact SourceModule.wellFormed_arguments h (wellFormed_optionalLiteral (by decide) _)
  | executable m =>
    exact SourceModule.wellFormed_arguments h (wellFormed_optionalLiteral (by decide) _)
  | test m => exact SourceModule.wellFormed_arguments h trivial
  | plugin p =>
    simp only [arguments, Plugin.arguments, Expression.allWellFormed_append, and_assoc]
    refine ⟨?_, ?_, ?_, ?_, ?_⟩
    · exact wellFormed_optionalLiteral (by decide) name
    · apply wellFormed_optionalNode (by decide)
      intro c _
      exact c.wellFormed
    · exact Sources.wellFormed_dependencies h
    · exact wellFormed_optionalLiteral (by decide) path
    · exact Sources.wellFormed_files _
  | systemLibrary l =>
    simp only [arguments, SystemLibrary.arguments, List.cons_append, Expression.allWellFormed_cons,
      Expression.allWellFormed_append]
    refine ⟨wellFormed_nameOrNil name, ⟨?_, ?_⟩, ?_⟩
    · exact wellFormed_optionalLiteral (by decide) path
    · exact wellFormed_optionalLiteral (by decide) l.pkgConfig
    · apply wellFormed_optionalNode (by decide)
      intro ps _
      apply wellFormed_list
      intro p _
      exact p.wellFormed
  | binary b =>
    simp only [arguments, BinaryArtifact.arguments, List.cons_append, Expression.allWellFormed_cons,
      Expression.allWellFormed_append]
    refine ⟨wellFormed_nameOrNil name, ⟨⟨?_, ?_⟩, ?_⟩, ?_⟩
    · exact wellFormed_optionalLiteral (by decide) path
    · exact wellFormed_optionalLiteral (by decide) b.url
    · exact wellFormed_optionalLiteral (by decide) b.checksum
    · exact TargetDependency.wellFormed_optionalList (by decide) h

end TargetBody

/-- The arguments of a target; a target without a name may have none at all. -/
def Declared.arguments (t : Target) : List Expression := t.body.arguments t.name t.path

theorem Declared.wellFormed {t : Target} (h : ∀ p ∈ t.body.entries, p.Plain)
    (hbare : t.arguments = [] → bare) : (expression t).WellFormed bare :=
  ⟨t.body.isKeyword, hbare, TargetBody.wellFormed_arguments h⟩

/-- Only targets can be calls without arguments. -/
theorem Package.wellFormed {p : Package} (h : p.Plain) :
    p.expression.WellFormed (∃ t ∈ p.targets, t.arguments = []) := by
  rcases List.forall_mem_append.mp h with ⟨hplatforms, htargets⟩
  rw [List.forall_mem_flatMap] at htargets
  refine ⟨by decide, nofun, ?_⟩
  simp only [arguments, List.cons_append, Expression.allWellFormed_cons,
    Expression.allWellFormed_append, and_assoc]
  refine ⟨?_, ?_, ?_, ?_, ?_, ?_, ?_, ?_, ?_⟩
  · exact wellFormed_literalArgument.mpr (by decide)
  · exact wellFormed_optionalLiteral (by decide) p.defaultLocalization
  · apply wellFormed_optionalList (by decide)
    intro s hs
    exact SupportedPlatform.wellFormed (hplatforms s hs)
  · apply wellFormed_optionalList (by decide)
    intro product _
    exact product.wellFormed
  · apply wellFormed_optionalList (by decide)
    intro d _
    exact d.wellFormed
  · apply wellFormed_optionalList (by decide)
    intro t ht
    apply Declared.wellFormed (htargets t ht)
    intro hnone
    exact ⟨t, ht, hnone⟩
  · apply wellFormed_optionalList (by decide)
    intro v _
    exact v.wellFormed
  · apply wellFormed_optionalSymbol (by decide)
    intro b
    cases b <;> decide
  · apply wellFormed_optionalSymbol (by decide)
    intro b
    cases b <;> decide

end SwiftManifest
