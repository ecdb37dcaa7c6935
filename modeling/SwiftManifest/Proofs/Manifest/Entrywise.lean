import SwiftManifest.Proofs.Expression.Block
import SwiftManifest.Proofs.Manifest.WellFormed

/-! Nodes are rendered one by one: a list is written from the texts of its entries, and the text of an
entry stands in the manifest of its package unchanged but for its depth. -/

namespace SwiftManifest

open Expression (block_print print printAll_eq_map)

/-- The types of the nodes that a manifest is made of. -/
inductive NodeType : (α : Type) → [Expressible α] → Prop
  | package : NodeType Package
  | supportedPlatform : NodeType SupportedPlatform
  | product : NodeType Product
  | packageDependency : NodeType PackageDependency
  | target : NodeType Target
  | targetDependency : NodeType TargetDependency
  | condition : NodeType Condition
  | resource : NodeType Resource
  | compilerSetting : NodeType CompilerSetting
  | linkerSetting : NodeType LinkerSetting
  | pluginUsage : NodeType PluginUsage
  | packageProvider : NodeType PackageProvider
  | capability : NodeType Capability
  | commandCapability : NodeType CommandCapability
  | commandIntent : NodeType CommandIntent
  | permission : NodeType Permission
  | swiftLanguageVersion : NodeType SwiftLanguageVersion
  | cLanguageStandard : NodeType CLanguageStandard
  | cxxLanguageStandard : NodeType CxxLanguageStandard
  | linkage : NodeType Linkage
  | buildConfiguration : NodeType BuildConfiguration
  | providerKind : NodeType ProviderKind
  | iosVersion : NodeType IosVersion
  | macOsVersion : NodeType MacOsVersion
  | watchOsVersion : NodeType WatchOsVersion
  | tvOsVersion : NodeType TvOsVersion
  | visionOsVersion : NodeType VisionOsVersion
  | driverKitVersion : NodeType DriverKitVersion
  | macCatalystVersion : NodeType MacCatalystVersion
  | list {α : Type} [Expressible α] : NodeType α → NodeType (List α)

theorem Symbolic.closed {α : Type} [Symbolic α]
    (h : ∀ a ∈ (Symbolic.all : List α), Block (symbolText (Symbolic.symbol a).toList)) (a : α) :
    (expression a).Closed :=
  h a (Symbolic.mem_all a)

namespace SupportedPlatform

theorem block_identifier {platform : Platform} (h : platform.isCustom = false) :
    Block (symbolText platform.identifier.toList) := by
  cases platform with
  | custom name => simp [Platform.isCustom] at h
  | _ => decide

/-- A version symbol is not restricted: it stands inside the brackets of its platform. -/
theorem closed (p : SupportedPlatform) : p.expression.Closed := by
  cases hcustom : p.platform.isCustom with
  | true =>
    obtain ⟨name, hname⟩ := exists_custom hcustom
    rw [expression_of_custom hname]
    trivial
  | false =>
    rw [expression_of_known hcustom]
    split
    · trivial
    · trivial
    · exact block_identifier hcustom

end SupportedPlatform

theorem SwiftLanguageVersion.closed (v : SwiftLanguageVersion) : v.expression.Closed := by
  cases v with
  | custom version => trivial
  | v4 => exact (by decide : Block (symbolText "v4".toList))
  | v4_2 => exact (by decide : Block (symbolText "v4_2".toList))
  | v5 => exact (by decide : Block (symbolText "v5".toList))
  | v6 => exact (by decide : Block (symbolText "v6".toList))

theorem NodeType.closed {α : Type} [Expressible α] (h : NodeType α) (a : α) :
    (expression a).Closed := by
  induction h with
  | supportedPlatform => exact a.closed
  | targetDependency => cases a <;> trivial
  | resource => cases a <;> trivial
  | capability => cases a <;> trivial
  | commandIntent => cases a <;> trivial
  | permission => cases a; trivial
  | swiftLanguageVersion => exact a.closed
  | cLanguageStandard => exact Symbolic.closed (by decide) a
  | cxxLanguageStandard => exact Symbolic.closed (by decide) a
  | linkage => exact Symbolic.closed (by decide) a
  | buildConfiguration => exact Symbolic.closed (by decide) a
  | providerKind => exact Symbolic.closed (by decide) a
  | iosVersion => exact Symbolic.closed (by decide) a
  | macOsVersion => exact Symbolic.closed (by decide) a
  | watchOsVersion => exact Symbolic.closed (by decide) a
  | tvOsVersion => exact Symbolic.closed (by decide) a
  | visionOsVersion => exact Symbolic.closed (by decide) a
  | driverKitVersion => exact Symbolic.closed (by decide) a
  | macCatalystVersion => exact Symbolic.closed (by decide) a
  | _ => trivial

theorem NodeType.block_render {α : Type} [Expressible α] (h : NodeType α) (a : α) :
    Block (render a) :=
  block_print (h.closed a)

/-- A list is empty brackets, or its entries between brackets, each indented by itself. -/
structure RendersEntrywise (α : Type) [Expressible α] : Prop where
  nil : render ([] : List α) = "[]".toList
  cons : ∀ (a : α) (as : List α), render (a :: as) =
    "[\n".toList ++ joined ",\n" ((a :: as).map fun b => indent (render b)) ++ "\n]".toList

theorem NodeType.rendersEntrywise {α : Type} [Expressible α] (h : NodeType α) :
    RendersEntrywise α where
  nil := rfl
  cons a as := by
    have hblocks : ∀ e ∈ (a :: as).map render, Block e := by
      simp only [List.forall_mem_map]
      intro b _
      exact h.block_render b
    rw [render_list, bracketedList_of_blocks (by simp) hblocks, List.map_map]
    rfl

theorem Package.closed_arguments (p : Package) : ∀ e ∈ p.arguments, e.Closed := by
  simp only [arguments, List.cons_append, List.forall_mem_cons, List.forall_mem_append, and_assoc]
  refine ⟨trivial, ?_, ?_, ?_, ?_, ?_, ?_, ?_, ?_⟩
  · exact closed_optionalLiteral _
  · exact closed_optionalList _
  · exact closed_optionalList _
  · exact closed_optionalList _
  · exact closed_optionalList _
  · exact closed_optionalList _
  · exact closed_optionalNode NodeType.cLanguageStandard.closed _
  · exact closed_optionalNode NodeType.cxxLanguageStandard.closed _

/-- The arguments of a package, apart for each of its fields. -/
def Package.groups (p : Package) : List (List Expression) :=
  [[literalArgument "name" p.name], optionalLiteral "defaultLocalization" p.defaultLocalization,
    optionalList "platforms" p.platforms, optionalList "products" p.products,
    optionalList "dependencies" p.dependencies, optionalList "targets" p.targets,
    optionalList "swiftLanguageVersions" p.swiftLanguageVersions,
    optionalNode "cLanguageStandard" p.cLanguageStandard,
    optionalNode "cxxLanguageStandard" p.cxxLanguageStandard]

theorem Package.arguments_eq_flatten (p : Package) : p.arguments = p.groups.flatten := by
  simp [arguments, groups]

/-- Each entry of a collection stands in the manifest of the package as it is rendered by itself, two
tabs further right, and nothing around it depends on it. -/
def EntriesStandApart {α : Type} [Expressible α] (p : Package) (as : List α)
    (update : List α → Package) : Prop :=
  ∀ (i : Nat) (h : i < as.length), ∃ before after,
    render p = before ++ indent (indent (render as[i])) ++ after ∧
      ∀ a, render (update (as.set i a)) = before ++ indent (indent (render a)) ++ after

/-- A collection is written as one group of arguments. -/
structure Slot {α : Type} [Expressible α] (p : Package) (update : List α → Package) where
  place : Fin 9
  label : String
  groups_eq : ∀ as, (update as).groups = p.groups.set place (optionalList label as)

namespace Slot

variable {α : Type} [Expressible α] {p : Package} {update : List α → Package} (s : Slot p update)

def front : List Expression := (p.groups.take s.place).flatten

def back : List Expression := (p.groups.drop (s.place + 1)).flatten

def frame (xs ys : List α) : Frame :=
  (Frame.argument "Package".toList (s.front.map print) (s.back.map print)).comp
    ((Frame.listEntry (xs.map render) (ys.map render)).labeled s.label.toList)

theorem arguments_eq {as : List α} (has : as ≠ []) :
    (update as).arguments = s.front ++ .labeled s.label (expression as) :: s.back := by
  have hplace : s.place < p.groups.length := s.place.isLt
  rw [Package.arguments_eq_flatten, s.groups_eq, List.set_eq_take_append_cons_drop, if_pos hplace,
    optionalList_of_ne_nil s.label has, List.flatten_append, List.flatten_cons]
  rfl

theorem render_eq_fill (hα : NodeType α) (xs : List α) (a : α) (ys : List α) :
    render (update (xs ++ a :: ys)) = (s.frame xs ys).fill (render a) := by
  have hne : xs ++ a :: ys ≠ [] := by simp
  have hentries : ∀ t ∈ xs.map render ++ render a :: ys.map render, Block t := by
    rw [← List.map_cons, ← List.map_append, List.forall_mem_map]
    intro b _
    exact hα.block_render b
  have hlist : (Frame.listEntry (xs.map render) (ys.map render)).fill (render a) =
      render (xs ++ a :: ys) := by
    rw [Frame.fill_listEntry hentries, render_list, List.map_append, List.map_cons]
  have harguments : ∀ t ∈ s.front.map print ++
      labeledText s.label.toList (render (xs ++ a :: ys)) :: s.back.map print, Block t := by
    have hclosed := Package.closed_arguments (update (xs ++ a :: ys))
    rw [s.arguments_eq hne] at hclosed
    have hblocks := List.forall_mem_map.mpr fun e he => block_print (hclosed e he)
    rwa [List.map_append, List.map_cons] at hblocks
  calc render (update (xs ++ a :: ys))
      = callText "Package".toList ((update (xs ++ a :: ys)).arguments.map print) := by
        rw [← printAll_eq_map]
        rfl
    _ = callText "Package".toList (s.front.map print ++
          labeledText s.label.toList (render (xs ++ a :: ys)) :: s.back.map print) := by
        rw [s.arguments_eq hne, List.map_append, List.map_cons]
        rfl
    _ = (s.frame xs ys).fill (render a) := by
        rw [frame, Frame.fill_comp _ _ (hα.block_render a), Frame.fill_labeled, hlist,
          Frame.fill_argument _ harguments]

theorem fill_frame (xs ys : List α) (t : Text) :
    (s.frame xs ys).fill t =
      (s.frame xs ys).before ++ ['\n'] ++ indent (indent t) ++ (s.frame xs ys).after := by
  have hdepth : indent^[(s.frame xs ys).depth] t = indent (indent t) := rfl
  rw [Frame.fill, hdepth]
  simp

include s in
theorem entriesStandApart {as : List α} (hα : NodeType α) (hupdate : update as = p) :
    EntriesStandApart p as update := by
  intro i h
  have hfill (a : α) : render (update (as.set i a)) =
      (s.frame (as.take i) (as.drop (i + 1))).fill (render a) := by
    rw [List.set_eq_take_append_cons_drop, if_pos h, s.render_eq_fill hα]
  have hentry := hfill as[i]
  rw [List.set_getElem_self, hupdate] at hentry
  refine ⟨(s.frame (as.take i) (as.drop (i + 1))).before ++ ['\n'],
    (s.frame (as.take i) (as.drop (i + 1))).after, ?_, fun a => ?_⟩
  · rw [hentry, fill_frame]
  · rw [hfill, fill_frame]

end Slot

/-- Rendering is compositional, without any restriction on strings and version symbols. -/
theorem render_compositional :
    (∀ {α : Type} [Expressible α], NodeType α → RendersEntrywise α) ∧
      ∀ p : Package,
        EntriesStandApart p p.platforms (fun as => { p with platforms := as }) ∧
        EntriesStandApart p p.products (fun as => { p with products := as }) ∧
        EntriesStandApart p p.dependencies (fun as => { p with dependencies := as }) ∧
        EntriesStandApart p p.targets (fun as => { p with targets := as }) ∧
        EntriesStandApart p p.swiftLanguageVersions
          (fun as => { p with swiftLanguageVersions := as }) := by
  refine ⟨fun h => h.rendersEntrywise, fun p => ⟨?_, ?_, ?_, ?_, ?_⟩⟩
  · exact Slot.entriesStandApart ⟨2, "platforms", fun _ => rfl⟩ .supportedPlatform rfl
  · exact Slot.entriesStandApart ⟨3, "products", fun _ => rfl⟩ .product rfl
  · exact Slot.entriesStandApart ⟨4, "dependencies", fun _ => rfl⟩ .packageDependency rfl
  · exact Slot.entriesStandApart ⟨5, "targets", fun _ => rfl⟩ .target rfl
  · exact Slot.entriesStandApart ⟨6, "swiftLanguageVersions", fun _ => rfl⟩
      .swiftLanguageVersion rfl

theorem render_compositional_line_breaks :
    let broken : SupportedPlatform := { platform := .iOS, version := some "a\r\n\nb\r" }
    NodeType SupportedPlatform ∧
      render [broken, { platform := .linux }, broken] =
        "[\n\t.iOS(.a\n\t\n\tb\r),\n\t.linux,\n\t.iOS(.a\n\t\n\tb\r)\n]".toList :=
  ⟨.supportedPlatform, ((render_compositional.1 .supportedPlatform).cons _ _).trans (by decide)⟩

end SwiftManifest
