import SwiftManifest.Proofs.Expression.Labels
import SwiftManifest.Proofs.Manifest.WellFormed

/-! The parameters of packages and targets. An argument is written for each of them that is set, in
the order of the manifest's own parameter lists, and the labels can be read off the lines of the
text: nothing inside an argument passes for one, whatever strings and symbols are in it. -/

namespace SwiftManifest

namespace Package

def parameters (p : Package) : List Parameter :=
  [⟨"name", true⟩, ⟨"defaultLocalization", p.defaultLocalization.isSome⟩,
    ⟨"platforms", !p.platforms.isEmpty⟩, ⟨"products", !p.products.isEmpty⟩,
    ⟨"dependencies", !p.dependencies.isEmpty⟩, ⟨"targets", !p.targets.isEmpty⟩,
    ⟨"swiftLanguageVersions", !p.swiftLanguageVersions.isEmpty⟩,
    ⟨"cLanguageStandard", p.cLanguageStandard.isSome⟩,
    ⟨"cxxLanguageStandard", p.cxxLanguageStandard.isSome⟩]

theorem fills_parameters (p : Package) : Fills p.parameters p.arguments := by
  simp only [arguments, List.cons_append, List.append_assoc]
  refine .cons (fills_literalArgument (by decide) _) (.cons ?_ (.cons ?_ (.cons ?_ (.cons ?_
    (.cons ?_ (.cons ?_ (.cons ?_ ?_)))))))
  · exact fills_optionalLiteral (by decide) _
  · exact fills_optionalList (by decide) _
  · exact fills_optionalList (by decide) _
  · exact fills_optionalList (by decide) _
  · exact fills_optionalList (by decide) _
  · exact fills_optionalList (by decide) _
  · exact fills_optionalSymbol (by decide) (by decide) _
  · exact fills_optionalSymbol (by decide) (by decide) _

end Package

namespace SourceModule

/-- `headers` are the parameters between resources and settings. -/
def parameters (name path : Option String) (m : SourceModule) (headers : List Parameter) :
    List Parameter :=
  [⟨"name", name.isSome⟩, ⟨"dependencies", !m.dependencies.isEmpty⟩, ⟨"path", path.isSome⟩,
    ⟨"exclude", !m.exclude.isEmpty⟩, ⟨"sources", !m.sources.isEmpty⟩,
    ⟨"resources", !m.resources.isEmpty⟩] ++ headers ++
  [⟨"cSettings", !m.cSettings.isEmpty⟩, ⟨"cxxSettings", !m.cxxSettings.isEmpty⟩,
    ⟨"swiftSettings", !m.swiftSettings.isEmpty⟩, ⟨"linkerSettings", !m.linkerSettings.isEmpty⟩,
    ⟨"plugins", !m.plugins.isEmpty⟩]

theorem fills_parameters {name path : Option String} (m : SourceModule) {headers : List Parameter}
    {headerArguments : List Expression} (h : Fills headers headerArguments) :
    Fills (m.parameters name path headers) (m.arguments name path headerArguments) := by
  simp only [parameters, arguments, Sources.dependencyArguments, Sources.fileArguments,
    BuildSettings.resourceArguments, BuildSettings.settingArguments, List.cons_append,
    List.nil_append, List.append_assoc]
  refine .cons ?_ (.cons ?_ (.cons ?_ (.cons ?_ (.cons ?_ (.cons ?_ (.append h (.cons ?_
    (.cons ?_ (.cons ?_ (.cons ?_ ?_))))))))))
  · exact fills_optionalLiteral (by decide) _
  · exact fills_optionalList (by decide) _
  · exact fills_optionalLiteral (by decide) _
  · exact fills_optionalStrings (by decide) _
  · exact fills_optionalStrings (by decide) _
  · exact fills_optionalList (by decide) _
  · exact fills_optionalList (by decide) _
  · exact fills_optionalList (by decide) _
  · exact fills_optionalList (by decide) _
  · exact fills_optionalList (by decide) _
  · exact fills_optionalList (by decide) _

end SourceModule

theorem fills_nameOrNil (name : Option String) : Fills [⟨"name", true⟩] [nameOrNil name] := by
  cases name with
  | none => exact fills_wellFormed (by decide) trivial
  | some name => exact fills_literalArgument (by decide) name

namespace TargetBody

/-- System libraries and binary targets have a name even when it is missing. -/
def parameters (name path : Option String) : TargetBody → List Parameter
  | .regular m | .executable m =>
    m.toSourceModule.parameters name path [⟨"publicHeadersPath", m.publicHeadersPath.isSome⟩]
  | .test m => m.parameters name path []
  | .plugin p =>
    [⟨"name", name.isSome⟩, ⟨"capability", p.capability.isSome⟩,
      ⟨"dependencies", !p.dependencies.isEmpty⟩, ⟨"path", path.isSome⟩,
      ⟨"exclude", !p.exclude.isEmpty⟩, ⟨"sources", !p.sources.isEmpty⟩]
  | .systemLibrary l =>
    [⟨"name", true⟩, ⟨"path", path.isSome⟩, ⟨"pkgConfig", l.pkgConfig.isSome⟩,
      ⟨"providers", l.providers.isSome⟩]
  | .binary b =>
    [⟨"name", true⟩, ⟨"path", path.isSome⟩, ⟨"url", b.url.isSome⟩,
      ⟨"checksum", b.checksum.isSome⟩, ⟨"dependencies", !b.dependencies.isEmpty⟩]

theorem fills_parameters (name path : Option String) (body : TargetBody) :
    Fills (body.parameters name path) (body.arguments name path) := by
  cases body with
  | regular m => exact m.toSourceModule.fills_parameters (fills_optionalLiteral (by decide) _)
  | executable m => exact m.toSourceModule.fills_parameters (fills_optionalLiteral (by decide) _)
  | test m => exact m.fills_parameters List.Forall₂.nil
  | plugin p =>
    simp only [arguments, Plugin.arguments, Sources.dependencyArguments, Sources.fileArguments,
      List.append_assoc]
    refine .cons ?_ (.cons ?_ (.cons ?_ (.cons ?_ (.cons ?_ ?_))))
    · exact fills_optionalLiteral (by decide) _
    · exact fills_optionalNode (by decide) fun c _ => c.wellFormed
    · exact fills_optionalList (by decide) _
    · exact fills_optionalLiteral (by decide) _
    · exact fills_optionalStrings (by decide) _
    · exact fills_optionalStrings (by decide) _
  | systemLibrary l =>
    simp only [arguments, SystemLibrary.arguments, List.cons_append, List.append_assoc]
    refine .cons (fills_nameOrNil name) (.cons ?_ (.cons ?_ ?_))
    · exact fills_optionalLiteral (by decide) _
    · exact fills_optionalLiteral (by decide) _
    · exact fills_optionalNode (by decide) fun ps _ => wellFormed_list fun p _ => p.wellFormed
  | binary b =>
    simp only [arguments, BinaryArtifact.arguments, List.cons_append, List.append_assoc]
    refine .cons (fills_nameOrNil name) (.cons ?_ (.cons ?_ (.cons ?_ ?_)))
    · exact fills_optionalLiteral (by decide) _
    · exact fills_optionalLiteral (by decide) _
    · exact fills_optionalLiteral (by decide) _
    · exact fills_optionalList (by decide) _

end TargetBody

/-- The labels of a text, each on a line behind one tab, are those of the parameters that are set,
in their order and each of them once. A line with one tab that has no label closes a bracket. -/
structure ListsParameters (t : Text) (ps : List Parameter) : Prop where
  labels_eq : (lines t).filterMap lineLabel? = presentLabels ps
  nodup : (presentLabels ps).Nodup
  others : ∀ l ∈ lines t, (lineLabel? l).isSome ∨ isContinuation l

theorem Fills.listsParameters {ps : List Parameter} {es : List Expression} (h : Fills ps es)
    (keyword : String) (hkeyword : IsKeyword keyword) (hlabels : (ps.map Parameter.label).Nodup) :
    ListsParameters (Expression.call keyword es).print ps where
  labels_eq := (h.showLabels hkeyword).labels_eq
  nodup := nodup_presentLabels hlabels
  others := (h.showLabels hkeyword).others

/-- Every argument that a package or a target has begins a line of its own, and nothing else looks
like one. Version symbols are not restricted: they stand in lists only, where every line is
indented. -/
theorem arguments_in_order :
    (∀ p : Package, ListsParameters (render p) p.parameters) ∧
      ∀ t : Target, ListsParameters (render t) (t.body.parameters t.name t.path) := by
  constructor
  · intro p
    have hlabels : (p.parameters.map Parameter.label).Nodup := by simp [Package.parameters]
    exact p.fills_parameters.listsParameters "Package" (by decide) hlabels
  · intro t
    have hlabels : ((t.body.parameters t.name t.path).map Parameter.label).Nodup := by
      cases t.body <;> simp [TargetBody.parameters, SourceModule.parameters]
    exact (t.body.fills_parameters t.name t.path).listsParameters _ t.body.isKeyword hlabels

/-- An excluded file that looks like an argument, and an empty path. -/
example :
    let t : Target := { path := some "", body := .test { exclude := ["\n\tname: "] } }
    (lines (render t)).filterMap lineLabel? = ["path".toList, "exclude".toList] := by
  decide

end SwiftManifest
