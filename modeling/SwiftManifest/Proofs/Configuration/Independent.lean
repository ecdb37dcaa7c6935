import SwiftManifest.Proofs.Configuration.Interleaved

/-! The attributes of packages and targets. Calls on different ones are independent, in a package
and in the closure of every kind of target, so how they are interleaved does not matter. -/

namespace SwiftManifest

inductive PackageAttribute where
  | defaultLocalization
  | cLanguageStandard
  | cxxLanguageStandard
  | platforms
  | products
  | dependencies
  | targets
  | swiftLanguageVersions
  deriving DecidableEq, Repr

/-- The attributes of targets; which of them a target has depends on its kind. -/
inductive TargetAttribute where
  | name
  | path
  | exclude
  | sources
  | dependencies
  | resources
  | cSettings
  | cxxSettings
  | swiftSettings
  | linkerSettings
  | plugins
  | publicHeadersPath
  | capability
  | pkgConfig
  | providers
  | url
  | checksum
  deriving DecidableEq, Repr

section Calls

instance : Attributed SourceCall TargetAttribute where
  attributeOf
    | .exclude _ => some .exclude
    | .sources _ => some .sources
    | .dependencies _ | .dependenciesNamed _ => some .dependencies
    | .inspect => none

instance : Attributed BuildCall TargetAttribute where
  attributeOf
    | .resources _ => some .resources
    | .cSettings _ => some .cSettings
    | .cxxSettings _ => some .cxxSettings
    | .swiftSettings _ => some .swiftSettings
    | .linkerSettings _ => some .linkerSettings
    | .plugins _ => some .plugins
    | .inspect => none

instance : Attributed SourceModuleCall TargetAttribute where
  attributeOf
    | .source call => Attributed.attributeOf call
    | .build call => Attributed.attributeOf call

instance : Attributed PublicModuleCall TargetAttribute where
  attributeOf
    | .module call => Attributed.attributeOf call
    | .publicHeadersPath _ => some .publicHeadersPath

instance : Attributed PluginCall TargetAttribute where
  attributeOf
    | .source call => Attributed.attributeOf call
    | .capability _ | .buildTool | .command _ => some .capability

instance : Attributed SystemLibraryCall TargetAttribute where
  attributeOf
    | .pkgConfig _ => some .pkgConfig
    | .providers _ => some .providers

instance : Attributed BinaryCall TargetAttribute where
  attributeOf
    | .url _ => some .url
    | .checksum _ => some .checksum
    | .dependencies _ => some .dependencies

instance {β : Type} [Attributed β TargetAttribute] : Attributed (TargetCall β) TargetAttribute where
  attributeOf
    | .path _ => some .path
    | .clearName => some .name
    | .inspect => none
    | .body call => Attributed.attributeOf call

instance : Attributed PackageCall PackageAttribute where
  attributeOf
    | .defaultLocalization _ => some .defaultLocalization
    | .cLanguageStandard _ => some .cLanguageStandard
    | .cxxLanguageStandard _ => some .cxxLanguageStandard
    | .platforms _ => some .platforms
    | .products _ => some .products
    | .dependencies _ => some .dependencies
    | .targets _ => some .targets
    | .swiftLanguageVersions _ => some .swiftLanguageVersions

end Calls

section Independence

-- Where the calls write to fields of one record, two calls write to different fields, or they are
-- on the same attribute.

theorem SourceCall.independent : Independent SourceCall Sources where
  unchanged call s h := by cases call <;> first | rfl | cases h
  commute call call' s h := by
    cases call <;> cases call' <;> first | rfl | exact absurd rfl h

theorem BuildCall.independent : Independent BuildCall BuildSettings where
  unchanged call b h := by cases call <;> first | rfl | cases h
  commute call call' b h := by
    cases call <;> cases call' <;> first | rfl | exact absurd rfl h

theorem SystemLibraryCall.independent : Independent SystemLibraryCall SystemLibrary where
  unchanged call l h := by cases call <;> cases h
  commute call call' l h := by
    cases call <;> cases call' <;> first | rfl | exact absurd rfl h

theorem BinaryCall.independent : Independent BinaryCall BinaryArtifact where
  unchanged call b h := by cases call <;> cases h
  commute call call' b h := by
    cases call <;> cases call' <;> first | rfl | exact absurd rfl h

theorem PackageCall.independent : Independent PackageCall Package where
  unchanged call p h := by cases call <;> cases h
  commute call call' p h := by
    cases call <;> cases call' <;> first | rfl | exact absurd rfl h

-- A layer is as independent as the parts it is made of; its parts share no field.

theorem SourceModuleCall.independent : Independent SourceModuleCall SourceModule where
  unchanged call m h := by
    cases call with
    | source call =>
      exact congrArg (fun s => { m with toSources := s })
        (SourceCall.independent.unchanged call m.toSources h)
    | build call =>
      exact congrArg (fun b => { m with toBuildSettings := b })
        (BuildCall.independent.unchanged call m.toBuildSettings h)
  commute call call' m h := by
    cases call with
    | source call =>
      cases call' with
      | source call' =>
        exact congrArg (fun s => { m with toSources := s })
          (SourceCall.independent.commute call call' m.toSources h)
      | build call' => rfl
    | build call =>
      cases call' with
      | source call' => rfl
      | build call' =>
        exact congrArg (fun b => { m with toBuildSettings := b })
          (BuildCall.independent.commute call call' m.toBuildSettings h)

theorem PublicModuleCall.independent : Independent PublicModuleCall PublicModule where
  unchanged call m h := by
    cases call with
    | module call =>
      exact congrArg (fun s => { m with toSourceModule := s })
        (SourceModuleCall.independent.unchanged call m.toSourceModule h)
    | publicHeadersPath path => cases h
  commute call call' m h := by
    cases call with
    | module call =>
      cases call' with
      | module call' =>
        exact congrArg (fun s => { m with toSourceModule := s })
          (SourceModuleCall.independent.commute call call' m.toSourceModule h)
      | publicHeadersPath path => rfl
    | publicHeadersPath path =>
      cases call' with
      | module call' => rfl
      | publicHeadersPath path' => exact absurd rfl h

theorem PluginCall.independent : Independent PluginCall Plugin where
  unchanged call p h := by
    cases call with
    | source call =>
      exact congrArg (fun s => { p with toSources := s })
        (SourceCall.independent.unchanged call p.toSources h)
    | _ => cases h
  commute call call' p h := by
    cases call with
    | source call =>
      cases call' with
      | source call' =>
        exact congrArg (fun s => { p with toSources := s })
          (SourceCall.independent.commute call call' p.toSources h)
      | _ => rfl
    | _ => cases call' <;> first | rfl | exact absurd rfl h

theorem TargetCall.independent {β σ : Type} [Call β σ] [Attributed β TargetAttribute]
    (hbody : Independent β σ) : Independent (TargetCall β) (Declared σ) where
  unchanged call t h := by
    cases call with
    | body call => exact congrArg (fun b => { t with body := b }) (hbody.unchanged call t.body h)
    | inspect => rfl
    | path _ => cases h
    | clearName => cases h
  commute call call' t h := by
    cases call with
    | body call =>
      cases call' with
      | body call' =>
        exact congrArg (fun b => { t with body := b }) (hbody.commute call call' t.body h)
      | _ => rfl
    | _ => cases call' <;> first | rfl | exact absurd rfl h

end Independence

section Alike

/-- The same target, with the calls in its closure interleaved in another way. -/
inductive TargetStart.Alike : TargetStart → TargetStart → Prop where
  | target (name) {calls calls'} (h : Interleaved Eq calls calls') :
      Alike (.target name calls) (.target name calls')
  | executableTarget (name) {calls calls'} (h : Interleaved Eq calls calls') :
      Alike (.executableTarget name calls) (.executableTarget name calls')
  | testTarget (name) {calls calls'} (h : Interleaved Eq calls calls') :
      Alike (.testTarget name calls) (.testTarget name calls')
  | plugin (name) {calls calls'} (h : Interleaved Eq calls calls') :
      Alike (.plugin name calls) (.plugin name calls')
  | systemLibrary (name) {calls calls'} (h : Interleaved Eq calls calls') :
      Alike (.systemLibrary name calls) (.systemLibrary name calls')
  | binaryTarget (name url checksum) {calls calls'} (h : Interleaved Eq calls calls') :
      Alike (.binaryTarget name url checksum calls) (.binaryTarget name url checksum calls')
  | binaryTargetPath (name path) {calls calls'} (h : Interleaved Eq calls calls') :
      Alike (.binaryTargetPath name path calls) (.binaryTargetPath name path calls')

/-- The same call, up to the order of independent calls in the closures of its targets. -/
inductive PackageCall.Alike : PackageCall → PackageCall → Prop where
  | refl (call) : Alike call call
  | targets {additions additions' : List TargetAddition}
      (h : List.Forall₂ (fun a a' => a.start.Alike a'.start) additions additions') :
      Alike (.targets additions) (.targets additions')

theorem TargetCall.run_interleaved {β σ : Type} [Call β σ] [Attributed β TargetAttribute]
    (hbody : Independent β σ) {calls calls' : List (TargetCall β)}
    (h : Interleaved Eq calls calls') (t : Declared σ) : run calls t = run calls' t := by
  refine (TargetCall.independent hbody).run_eq ?_ h t
  rintro call _ rfl
  exact ⟨rfl, fun _ => rfl⟩

theorem TargetStart.Alike.node_eq {start start' : TargetStart} (h : start.Alike start') :
    start.node = start'.node := by
  cases h with
  | target _ h | executableTarget _ h =>
    exact congrArg (Declared.map _) (TargetCall.run_interleaved PublicModuleCall.independent h _)
  | testTarget _ h =>
    exact congrArg (Declared.map _) (TargetCall.run_interleaved SourceModuleCall.independent h _)
  | plugin _ h =>
    exact congrArg (Declared.map _) (TargetCall.run_interleaved PluginCall.independent h _)
  | systemLibrary _ h =>
    exact congrArg (Declared.map _) (TargetCall.run_interleaved SystemLibraryCall.independent h _)
  | binaryTarget _ _ _ h | binaryTargetPath _ _ h =>
    exact congrArg (Declared.map _) (TargetCall.run_interleaved BinaryCall.independent h _)

theorem PackageCall.Alike.sameEffect {call call' : PackageCall} (h : call.Alike call') :
    SameEffect Package call call' := by
  cases h with
  | refl => exact ⟨rfl, fun _ => rfl⟩
  | @targets additions additions' h =>
    refine ⟨rfl, fun p => ?_⟩
    have hnodes : additions.map Addition.node = additions'.map Addition.node := by
      induction h with
      | nil => rfl
      | @cons a a' _ _ ha _ ih =>
        rw [List.map_cons, List.map_cons, a.node_eq, a'.node_eq, ih]
        exact congrArg (· :: _) ha.node_eq
    exact congrArg (fun ts => { p with targets := ts }) (run_additions_congr hnodes p.targets)

end Alike

section Attributes

/-- The attributes of a package of which the last value counts. -/
structure Package.Setters : Prop where
  defaultLocalization : ∀ value, Sets (PackageCall.defaultLocalization value)
    Package.defaultLocalization (some value)
  cLanguageStandard : ∀ value, Sets (PackageCall.cLanguageStandard value)
    Package.cLanguageStandard (some value)
  cxxLanguageStandard : ∀ value, Sets (PackageCall.cxxLanguageStandard value)
    Package.cxxLanguageStandard (some value)

/-- What the closures of a kind of target keep to: only the order of the calls on each attribute
matters, and of a name or a path the last value counts. -/
structure Declared.Closures (β σ : Type) [Call β σ] [Attributed β TargetAttribute] : Prop where
  interleaved : ∀ {calls calls' : List (TargetCall β)}, Interleaved Eq calls calls' →
    ∀ t : Declared σ, run calls t = run calls' t
  name : Sets (.clearName : TargetCall β) (name : Declared σ → Option String) none
  path : ∀ value, Sets (.path value : TargetCall β) (path : Declared σ → Option String) (some value)

structure PublicModule.Closures : Prop extends Declared.Closures PublicModuleCall PublicModule where
  publicHeadersPath : ∀ value, Sets (TargetCall.body (PublicModuleCall.publicHeadersPath value))
    (fun t : Declared PublicModule => t.body.publicHeadersPath) (some value)

structure Plugin.Closures : Prop extends Declared.Closures PluginCall Plugin where
  capability : ∀ value, Sets (TargetCall.body (PluginCall.capability value))
    (fun t : Declared Plugin => t.body.capability) (some value)
  buildTool : Sets (TargetCall.body PluginCall.buildTool)
    (fun t : Declared Plugin => t.body.capability) (some .buildTool)
  command : ∀ calls, Sets (TargetCall.body (PluginCall.command calls))
    (fun t : Declared Plugin => t.body.capability) (some (.command (run calls {})))

structure SystemLibrary.Closures : Prop
    extends Declared.Closures SystemLibraryCall SystemLibrary where
  pkgConfig : ∀ value, Sets (TargetCall.body (SystemLibraryCall.pkgConfig value))
    (fun t : Declared SystemLibrary => t.body.pkgConfig) (some value)

structure BinaryArtifact.Closures : Prop extends Declared.Closures BinaryCall BinaryArtifact where
  url : ∀ value, Sets (TargetCall.body (BinaryCall.url value))
    (fun t : Declared BinaryArtifact => t.body.url) (some value)
  checksum : ∀ value, Sets (TargetCall.body (BinaryCall.checksum value))
    (fun t : Declared BinaryArtifact => t.body.checksum) (some value)

theorem Package.setters : Package.Setters where
  defaultLocalization _ := PackageCall.independent.sets fun _ => rfl
  cLanguageStandard _ := PackageCall.independent.sets fun _ => rfl
  cxxLanguageStandard _ := PackageCall.independent.sets fun _ => rfl

theorem Declared.closures {β σ : Type} [Call β σ] [Attributed β TargetAttribute]
    (hbody : Independent β σ) : Declared.Closures β σ where
  interleaved := TargetCall.run_interleaved hbody
  name := (TargetCall.independent hbody).sets fun _ => rfl
  path _ := (TargetCall.independent hbody).sets fun _ => rfl

theorem PublicModule.closures : PublicModule.Closures where
  toClosures := Declared.closures PublicModuleCall.independent
  publicHeadersPath _ :=
    (TargetCall.independent PublicModuleCall.independent).sets fun _ => rfl

theorem Plugin.closures : Plugin.Closures where
  toClosures := Declared.closures PluginCall.independent
  capability _ := (TargetCall.independent PluginCall.independent).sets fun _ => rfl
  buildTool := (TargetCall.independent PluginCall.independent).sets fun _ => rfl
  command _ := (TargetCall.independent PluginCall.independent).sets fun _ => rfl

theorem SystemLibrary.closures : SystemLibrary.Closures where
  toClosures := Declared.closures SystemLibraryCall.independent
  pkgConfig _ := (TargetCall.independent SystemLibraryCall.independent).sets fun _ => rfl

theorem BinaryArtifact.closures : BinaryArtifact.Closures where
  toClosures := Declared.closures BinaryCall.independent
  url _ := (TargetCall.independent BinaryCall.independent).sets fun _ => rfl
  checksum _ := (TargetCall.independent BinaryCall.independent).sets fun _ => rfl

end Attributes

/-- Two programs with the same calls on each attribute make the same package, with the same
document, and two closures the same target. A setter that no other call on its attribute follows
gives the attribute its value. -/
theorem Package.configuration_interleaves (p : Package) :
    (∀ calls calls', Interleaved PackageCall.Alike calls calls' →
      (Construction.ofCalls p calls).package = (Construction.ofCalls p calls').package ∧
        (Construction.ofCalls p calls).package.document =
          (Construction.ofCalls p calls').package.document) ∧
      Package.Setters ∧ PublicModule.Closures ∧
      Declared.Closures SourceModuleCall SourceModule ∧ Plugin.Closures ∧
      SystemLibrary.Closures ∧ BinaryArtifact.Closures := by
  refine ⟨fun calls calls' h => ?_, Package.setters, PublicModule.closures,
    Declared.closures SourceModuleCall.independent, Plugin.closures, SystemLibrary.closures,
    BinaryArtifact.closures⟩
  have hpackage : (Construction.ofCalls p calls).package =
      (Construction.ofCalls p calls').package := by
    rw [Construction.package_ofCalls, Construction.package_ofCalls]
    exact PackageCall.independent.run_eq PackageCall.Alike.sameEffect h p
  exact ⟨hpackage, congrArg document hpackage⟩

/-- Calls on the path and on the excluded files of a target change places, and so do calls on the
localization and on the targets of the package. -/
theorem Package.configuration_interleaves_test :
    let closure : List (TargetCall SourceModuleCall) :=
      [.path "Old", .body (.source (.exclude ["a"])), .path "Tests", .inspect]
    let closure' : List (TargetCall SourceModuleCall) :=
      [.body (.source (.exclude ["a"])), .path "Old", .path "Tests"]
    let p : Package := { name := "P" }
    (Construction.ofCalls p [.defaultLocalization "en",
        .targets [{ start := .testTarget "T" closure }]]).package =
      (Construction.ofCalls p [.targets [{ start := .testTarget "T" closure' }],
        .defaultLocalization "en"]).package := by
  intro closure closure' p
  have hclosure : Interleaved Eq closure closure' := by
    intro a
    cases a <;> exact List.forall₂_refl _
  have hcalls : Interleaved PackageCall.Alike
      [.defaultLocalization "en", .targets [{ start := .testTarget "T" closure }]]
      [.targets [{ start := .testTarget "T" closure' }], .defaultLocalization "en"] := by
    intro a
    cases a with
    | targets => exact .cons (.targets (.cons (.testTarget "T" hclosure) .nil)) .nil
    | defaultLocalization => exact .cons (.refl _) .nil
    | _ => exact .nil
  exact ((configuration_interleaves p).1 _ _ hcalls).1

end SwiftManifest
