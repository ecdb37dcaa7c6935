import SwiftManifest.Expression.Package
import SwiftManifest.Proofs.Expression.MapText
import SwiftManifest.Proofs.Manifest.Traversal

/-! Replacing the strings of a package replaces the literals of its expression and nothing else, as
long as a replaced platform entry is written like the old one up to its literals. -/

namespace SwiftManifest

open Expression (mapText mapTextAll mapTextAll_eq_map)

variable {r : Replacement} {f g : String → String}

/-- A replacement that cannot be seen when literals are mapped by `f` and constraints by `g`. -/
structure Replacement.Hidden (r : Replacement) (f g : String → String) : Prop where
  text : ∀ value, f (r.text value) = f value
  platform : ∀ s, (expression (r.platform s)).mapText f g = (expression s).mapText f g

section Arguments

variable {α : Type} [Expressible α] {label : String}

theorem mapText_literalArgument (h : r.Hidden f g) (value : String) :
    (literalArgument label (r.text value)).mapText f g =
      (literalArgument label value).mapText f g := by
  simp [literalArgument, mapText, h.text]

theorem mapText_optionalLiteral (h : r.Hidden f g) (value : Option String) :
    mapTextAll f g (optionalLiteral label (value.map r.text)) =
      mapTextAll f g (optionalLiteral label value) := by
  cases value <;> simp [optionalLiteral, mapText_literalArgument h]

theorem mapText_optionalStrings (h : r.Hidden f g) (values : List String) :
    mapTextAll f g (optionalStrings label (values.map r.text)) =
      mapTextAll f g (optionalStrings label values) := by
  cases values <;> simp [optionalStrings, mapText, h.text]

theorem mapText_optionalNode {F : α → α}
    (hF : ∀ a, (expression (F a)).mapText f g = (expression a).mapText f g) (value : Option α) :
    mapTextAll f g (optionalNode label (value.map F)) =
      mapTextAll f g (optionalNode label value) := by
  cases value <;> simp [optionalNode, mapText, hF]

theorem mapText_list {F : α → α}
    (hF : ∀ a, (expression (F a)).mapText f g = (expression a).mapText f g) (as : List α) :
    (expression (as.map F)).mapText f g = (expression as).mapText f g := by
  simp [expression, mapText, mapTextAll_eq_map, hF]

theorem mapText_optionalList {F : α → α}
    (hF : ∀ a, (expression (F a)).mapText f g = (expression a).mapText f g) (as : List α) :
    mapTextAll f g (optionalList label (as.map F)) = mapTextAll f g (optionalList label as) := by
  cases as with
  | nil => rfl
  | cons a as =>
    have hlist := mapText_list hF (a :: as)
    simp only [List.map_cons] at hlist
    simp [optionalList, mapText, hlist]

end Arguments

namespace Condition

theorem mapText_replaced (h : r.Hidden f g) (c : Condition) :
    (c.replaced r).expression.mapText f g = c.expression.mapText f g := by
  simp [expression, replaced, mapText, mapText_optionalNode (mapText_list h.platform)]

theorem mapText_trailing (h : r.Hidden f g) (c : Option Condition) :
    mapTextAll f g (trailing (c.map (·.replaced r))) = mapTextAll f g (trailing c) := by
  cases c <;> simp [trailing, mapText_replaced h]

end Condition

theorem PackageDependency.mapText_replaced (h : r.Hidden f g) {constraint : String → String}
    (hconstraint : ∀ c, g (constraint c) = g c) (d : PackageDependency) :
    (d.replaced r constraint).expression.mapText f g = d.expression.mapText f g := by
  rcases d with ⟨location, version⟩
  cases location <;> cases version <;>
    simp [expression, replaced, Location.replaced, Location.argument, mapText,
      mapText_literalArgument h, hconstraint]

theorem TargetDependency.mapText_replaced (h : r.Hidden f g) (d : TargetDependency) :
    (d.replaced r).expression.mapText f g = d.expression.mapText f g := by
  have hcondition (c : Option Condition) :
      mapTextAll f g (optionalNode "condition" (c.map (·.replaced r))) =
        mapTextAll f g (optionalNode "condition" c) :=
    mapText_optionalNode (Condition.mapText_replaced h) c
  cases d <;>
    simp [expression, replaced, mapText, mapText_literalArgument h, mapText_optionalLiteral h,
      hcondition, h.text]

theorem Resource.mapText_replaced (h : r.Hidden f g) (a : Resource) :
    (a.replaced r).expression.mapText f g = a.expression.mapText f g := by
  cases a <;> simp [expression, replaced, mapText, mapText_optionalLiteral h, h.text]

theorem CompilerOption.keyword_replaced (o : CompilerOption) :
    (o.replaced r).keyword = o.keyword := by
  cases o <;> rfl

theorem CompilerOption.mapText_replaced (h : r.Hidden f g) (o : CompilerOption) :
    mapTextAll f g (o.replaced r).arguments = mapTextAll f g o.arguments := by
  cases o <;> simp [arguments, replaced, mapText, mapText_optionalLiteral h, h.text]

theorem LinkerOption.keyword_replaced (o : LinkerOption) :
    (o.replaced r).keyword = o.keyword := by
  cases o <;> rfl

theorem LinkerOption.mapText_replaced (h : r.Hidden f g) (o : LinkerOption) :
    mapTextAll f g (o.replaced r).arguments = mapTextAll f g o.arguments := by
  cases o <;> simp [arguments, replaced, mapText, h.text]

namespace Setting

theorem mapText_compiler (h : r.Hidden f g) (s : CompilerSetting) :
    (expression (s.replaced (·.replaced r) r)).mapText f g = (expression s).mapText f g := by
  simp [expression, replaced, mapText, CompilerOption.keyword_replaced,
    CompilerOption.mapText_replaced h, Condition.mapText_trailing h]

theorem mapText_linker (h : r.Hidden f g) (s : LinkerSetting) :
    (expression (s.replaced (·.replaced r) r)).mapText f g = (expression s).mapText f g := by
  simp [expression, replaced, mapText, LinkerOption.keyword_replaced,
    LinkerOption.mapText_replaced h, Condition.mapText_trailing h]

end Setting

theorem PluginUsage.mapText_replaced (h : r.Hidden f g) (p : PluginUsage) :
    (p.replaced r).expression.mapText f g = p.expression.mapText f g := by
  simp [expression, replaced, mapText, mapText_literalArgument h, mapText_optionalLiteral h]

theorem PackageProvider.mapText_replaced (h : r.Hidden f g) (p : PackageProvider) :
    (p.replaced r).expression.mapText f g = p.expression.mapText f g := by
  simp [expression, replaced, mapText, h.text]

theorem CommandIntent.mapText_replaced (h : r.Hidden f g) (i : CommandIntent) :
    (i.replaced r).expression.mapText f g = i.expression.mapText f g := by
  cases i <;> simp [expression, replaced, mapText, mapText_literalArgument h]

theorem Permission.mapText_replaced (h : r.Hidden f g) (p : Permission) :
    (p.replaced r).expression.mapText f g = p.expression.mapText f g := by
  simp [expression, replaced, mapText, mapText_literalArgument h]

theorem Capability.mapText_replaced (h : r.Hidden f g) (c : Capability) :
    (c.replaced r).expression.mapText f g = c.expression.mapText f g := by
  cases c with
  | buildTool => rfl
  | command details =>
    have hpermissions :
        (SwiftManifest.expression (details.permissions.map (·.replaced r))).mapText f g =
          (SwiftManifest.expression details.permissions).mapText f g :=
      mapText_list (Permission.mapText_replaced h) details.permissions
    simp [expression, replaced, CommandCapability.expression, CommandCapability.replaced, mapText,
      mapText_optionalNode (CommandIntent.mapText_replaced h), hpermissions]

theorem Product.mapText_replaced (h : r.Hidden f g) (p : Product) :
    (p.replaced r).expression.mapText f g = p.expression.mapText f g := by
  simp [expression, replaced, keyword, linkage, mapText, mapText_literalArgument h, h.text]

theorem SwiftLanguageVersion.mapText_replaced (h : r.Hidden f g) (v : SwiftLanguageVersion) :
    (v.replaced r).expression.mapText f g = v.expression.mapText f g := by
  cases v <;> simp [expression, replaced, mapText, h.text]

namespace Sources

theorem mapText_dependencies (h : r.Hidden f g) (s : Sources) :
    mapTextAll f g (s.replaced r).dependencyArguments = mapTextAll f g s.dependencyArguments :=
  mapText_optionalList (TargetDependency.mapText_replaced h) s.dependencies

theorem mapText_files (h : r.Hidden f g) (s : Sources) :
    mapTextAll f g (s.replaced r).fileArguments = mapTextAll f g s.fileArguments := by
  simp [fileArguments, replaced, mapText_optionalStrings h]

end Sources

namespace BuildSettings

theorem mapText_resources (h : r.Hidden f g) (b : BuildSettings) :
    mapTextAll f g (b.replaced r).resourceArguments = mapTextAll f g b.resourceArguments :=
  mapText_optionalList (Resource.mapText_replaced h) b.resources

theorem mapText_settings (h : r.Hidden f g) (b : BuildSettings) :
    mapTextAll f g (b.replaced r).settingArguments = mapTextAll f g b.settingArguments := by
  simp [settingArguments, replaced, mapText_optionalList (Setting.mapText_compiler h),
    mapText_optionalList (Setting.mapText_linker h),
    mapText_optionalList (PluginUsage.mapText_replaced h)]

end BuildSettings

theorem SourceModule.mapText_arguments (h : r.Hidden f g) (name path : Option String)
    (m : SourceModule) {headers headers' : List Expression}
    (hheaders : mapTextAll f g headers' = mapTextAll f g headers) :
    mapTextAll f g ((m.replaced r).arguments (name.map r.text) (path.map r.text) headers') =
      mapTextAll f g (m.arguments name path headers) := by
  simp [arguments, replaced, mapText_optionalLiteral h, Sources.mapText_dependencies h,
    Sources.mapText_files h, BuildSettings.mapText_resources h, BuildSettings.mapText_settings h,
    hheaders]

theorem mapText_nameOrNil (h : r.Hidden f g) (name : Option String) :
    (nameOrNil (name.map r.text)).mapText f g = (nameOrNil name).mapText f g := by
  cases name <;> simp [nameOrNil, mapText_literalArgument h]

namespace TargetBody

theorem keyword_replaced (body : TargetBody) : (body.replaced r).keyword = body.keyword := by
  cases body <;> rfl

theorem mapText_arguments (h : r.Hidden f g) (name path : Option String) (body : TargetBody) :
    mapTextAll f g ((body.replaced r).arguments (name.map r.text) (path.map r.text)) =
      mapTextAll f g (body.arguments name path) := by
  cases body with
  | regular m =>
    exact SourceModule.mapText_arguments h name path _ (mapText_optionalLiteral h _)
  | executable m =>
    exact SourceModule.mapText_arguments h name path _ (mapText_optionalLiteral h _)
  | test m => exact SourceModule.mapText_arguments h name path m rfl
  | plugin p =>
    simp [arguments, replaced, Plugin.arguments, Plugin.replaced, mapText_optionalLiteral h,
      mapText_optionalNode (Capability.mapText_replaced h), Sources.mapText_dependencies h,
      Sources.mapText_files h]
  | systemLibrary l =>
    simp [arguments, replaced, SystemLibrary.arguments, SystemLibrary.replaced,
      mapText_nameOrNil h, mapText_optionalLiteral h,
      mapText_optionalNode (mapText_list (PackageProvider.mapText_replaced h))]
  | binary b =>
    simp [arguments, replaced, BinaryArtifact.arguments, BinaryArtifact.replaced,
      mapText_nameOrNil h, mapText_optionalLiteral h,
      mapText_optionalList (TargetDependency.mapText_replaced h)]

end TargetBody

theorem Declared.mapText_replaced (h : r.Hidden f g) (t : Target) :
    (expression (t.replaced r)).mapText f g = (expression t).mapText f g := by
  simp [expression, replaced, mapText, TargetBody.keyword_replaced, TargetBody.mapText_arguments h]

theorem Package.mapText_replaced (h : r.Hidden f g) {constraint : String → String}
    (hconstraint : ∀ c, g (constraint c) = g c) (p : Package) :
    (p.replaced r constraint).expression.mapText f g = p.expression.mapText f g := by
  simp [expression, arguments, replaced, mapText, mapText_literalArgument h,
    mapText_optionalLiteral h, mapText_optionalList h.platform,
    mapText_optionalList (Product.mapText_replaced h),
    mapText_optionalList (PackageDependency.mapText_replaced h hconstraint),
    mapText_optionalList (Declared.mapText_replaced h),
    mapText_optionalList (SwiftLanguageVersion.mapText_replaced h)]

end SwiftManifest
