import SwiftManifest.Proofs.Configuration.Run

/-! Configuration only appends. A call leaves every list of the package in front of what it adds,
and a change on a handle reaches no other node than the last. So what a closure does in one call, it
does in two, at any depth of a program. -/

namespace SwiftManifest

/-- The lists of a package. -/
@[ext]
structure Collections where
  platforms : List SupportedPlatform := []
  products : List Product := []
  dependencies : List PackageDependency := []
  targets : List Target := []
  swiftLanguageVersions : List SwiftLanguageVersion := []
  deriving DecidableEq, Repr

instance : Append Collections where
  append a b :=
    { platforms := a.platforms ++ b.platforms
      products := a.products ++ b.products
      dependencies := a.dependencies ++ b.dependencies
      targets := a.targets ++ b.targets
      swiftLanguageVersions := a.swiftLanguageVersions ++ b.swiftLanguageVersions }

def Package.collections (p : Package) : Collections :=
  { platforms := p.platforms
    products := p.products
    dependencies := p.dependencies
    targets := p.targets
    swiftLanguageVersions := p.swiftLanguageVersions }

/-- The nodes that a call makes, in the order of the calls in its closure. -/
def PackageCall.added : PackageCall → Collections
  | .platforms additions => { platforms := additions.map Addition.node }
  | .products additions => { products := additions.map Addition.node }
  | .dependencies additions => { dependencies := additions.map Addition.node }
  | .targets additions => { targets := additions.map Addition.node }
  | .swiftLanguageVersions additions => { swiftLanguageVersions := additions.map Addition.node }
  | .defaultLocalization _ | .cLanguageStandard _ | .cxxLanguageStandard _ => {}

theorem Package.collections_apply (p : Package) (call : PackageCall) :
    (Call.apply call p).collections = p.collections ++ call.added := by
  -- one list grows, or none when the call sets a single value
  have hnone : ∀ {α : Type} (as : List α), as = as ++ [] := fun as => (List.append_nil as).symm
  cases call <;> apply Collections.ext <;> first | exact run_additions _ _ | exact hnone _

/-- A program adds what its calls add, in their order. -/
theorem Package.collections_run (calls : List PackageCall) (p : Package) :
    (run calls p).collections =
      calls.foldl (fun collections call => collections ++ call.added) p.collections := by
  induction calls generalizing p with
  | nil => rfl
  | cons call calls ih =>
    rw [List.foldl_cons, ← collections_apply]
    exact ih (Call.apply call p)

section Split

variable {κ σ : Type} [Call κ σ]

/-- One call of a program gives way to the calls that it is split into. -/
inductive Divided (Split : κ → List κ → Prop) : List κ → List κ → Prop where
  | mk (before after : List κ) {call : κ} {parts : List κ} (h : Split call parts) :
      Divided Split (before ++ call :: after) (before ++ (parts ++ after))

variable (σ) in
/-- The parts do together what the call does. -/
def Neutral (Split : κ → List κ → Prop) : Prop :=
  ∀ {call parts}, Split call parts → ∀ s : σ, run parts s = Call.apply call s

theorem Divided.run_eq {Split : κ → List κ → Prop} (hneutral : Neutral σ Split)
    {calls calls' : List κ} (h : Divided Split calls calls') (s : σ) :
    run calls' s = run calls s := by
  cases h with
  | mk before after hsplit =>
    rw [run_append, run_append, run_append, hneutral hsplit]
    rfl

variable {κ' σ' : Type} [Call κ' σ']

/-- A call that acts on a part of a state is split as the call on the part is. -/
theorem Neutral.lift {Split : κ → List κ → Prop} (hneutral : Neutral σ Split) (f : κ → κ')
    (set : σ → σ') (hset : ∀ call s, Call.apply (f call) (set s) = set (Call.apply call s))
    {call : κ} {parts : List κ} (h : Split call parts) (s : σ) :
    run (parts.map f) (set s) = Call.apply (f call) (set s) := by
  rw [run_map hset, hset, hneutral h]

/-- A closure that runs on a part of a state may run in two calls. -/
theorem run_closures (f : List κ → κ') (set : σ → σ')
    (hset : ∀ calls s, Call.apply (f calls) (set s) = set (run calls s)) (a b : List κ) (s : σ) :
    run [f a, f b] (set s) = Call.apply (f (a ++ b)) (set s) := by
  change Call.apply (f b) (Call.apply (f a) (set s)) = _
  rw [hset, hset, hset, run_append]

end Split

inductive SourceCall.Split : SourceCall → List SourceCall → Prop where
  | dependencies (a b) : Split (.dependencies (a ++ b)) [.dependencies a, .dependencies b]

theorem SourceCall.Split.neutral : Neutral Sources SourceCall.Split := by
  intro call parts h s
  cases h with
  | dependencies a b =>
    exact run_closures SourceCall.dependencies (fun l => { s with dependencies := l })
      (fun _ _ => rfl) a b s.dependencies

inductive BuildCall.Split : BuildCall → List BuildCall → Prop where
  | resources (a b) : Split (.resources (a ++ b)) [.resources a, .resources b]
  | cSettings (a b) : Split (.cSettings (a ++ b)) [.cSettings a, .cSettings b]
  | cxxSettings (a b) : Split (.cxxSettings (a ++ b)) [.cxxSettings a, .cxxSettings b]
  | swiftSettings (a b) : Split (.swiftSettings (a ++ b)) [.swiftSettings a, .swiftSettings b]
  | linkerSettings (a b) : Split (.linkerSettings (a ++ b)) [.linkerSettings a, .linkerSettings b]
  | plugins (a b) : Split (.plugins (a ++ b)) [.plugins a, .plugins b]

theorem BuildCall.Split.neutral : Neutral BuildSettings BuildCall.Split := by
  intro call parts h s
  cases h with
  | resources a b =>
    exact run_closures BuildCall.resources (fun l => { s with resources := l })
      (fun _ _ => rfl) a b s.resources
  | cSettings a b =>
    exact run_closures BuildCall.cSettings (fun l => { s with cSettings := l })
      (fun _ _ => rfl) a b s.cSettings
  | cxxSettings a b =>
    exact run_closures BuildCall.cxxSettings (fun l => { s with cxxSettings := l })
      (fun _ _ => rfl) a b s.cxxSettings
  | swiftSettings a b =>
    exact run_closures BuildCall.swiftSettings (fun l => { s with swiftSettings := l })
      (fun _ _ => rfl) a b s.swiftSettings
  | linkerSettings a b =>
    exact run_closures BuildCall.linkerSettings (fun l => { s with linkerSettings := l })
      (fun _ _ => rfl) a b s.linkerSettings
  | plugins a b =>
    exact run_closures BuildCall.plugins (fun l => { s with plugins := l })
      (fun _ _ => rfl) a b s.plugins

inductive SourceModuleCall.Split : SourceModuleCall → List SourceModuleCall → Prop where
  | source {call parts} (h : SourceCall.Split call parts) :
      Split (.source call) (parts.map .source)
  | build {call parts} (h : BuildCall.Split call parts) : Split (.build call) (parts.map .build)

theorem SourceModuleCall.Split.neutral : Neutral SourceModule SourceModuleCall.Split := by
  intro call parts h m
  cases h with
  | source h =>
    exact SourceCall.Split.neutral.lift SourceModuleCall.source
      (fun s => { m with toSources := s }) (fun _ _ => rfl) h m.toSources
  | build h =>
    exact BuildCall.Split.neutral.lift SourceModuleCall.build
      (fun b => { m with toBuildSettings := b }) (fun _ _ => rfl) h m.toBuildSettings

inductive PublicModuleCall.Split : PublicModuleCall → List PublicModuleCall → Prop where
  | module {call parts} (h : SourceModuleCall.Split call parts) :
      Split (.module call) (parts.map .module)

theorem PublicModuleCall.Split.neutral : Neutral PublicModule PublicModuleCall.Split := by
  intro call parts h m
  cases h with
  | module h =>
    exact SourceModuleCall.Split.neutral.lift PublicModuleCall.module
      (fun s => { m with toSourceModule := s }) (fun _ _ => rfl) h m.toSourceModule

inductive CommandCall.Split : CommandCall → List CommandCall → Prop where
  | permissions (a b) : Split (.permissions (a ++ b)) [.permissions a, .permissions b]

theorem CommandCall.Split.neutral : Neutral CommandCapability CommandCall.Split := by
  intro call parts h c
  cases h with
  | permissions a b =>
    let after (ps : List Permission) : CommandCapability := { c with permissions := ps }
    change after (c.permissions ++ a.map .writeToPackageDirectory ++
      b.map .writeToPackageDirectory) =
        after (c.permissions ++ (a ++ b).map .writeToPackageDirectory)
    rw [List.map_append, List.append_assoc]

/-- A command starts from nothing, so only what happens in its closure is split. -/
inductive PluginCall.Split : PluginCall → List PluginCall → Prop where
  | source {call parts} (h : SourceCall.Split call parts) :
      Split (.source call) (parts.map .source)
  | command {calls calls'} (h : Divided CommandCall.Split calls calls') :
      Split (.command calls) [.command calls']

theorem PluginCall.Split.neutral : Neutral Plugin PluginCall.Split := by
  intro call parts h p
  cases h with
  | source h =>
    exact SourceCall.Split.neutral.lift PluginCall.source
      (fun s => { p with toSources := s }) (fun _ _ => rfl) h p.toSources
  | command h =>
    let after (c : CommandCapability) : Plugin := { p with capability := some (.command c) }
    exact congrArg after (h.run_eq CommandCall.Split.neutral {})

inductive SystemLibraryCall.Split : SystemLibraryCall → List SystemLibraryCall → Prop where
  | providers (a b) : Split (.providers (a ++ b)) [.providers a, .providers b]

/-- The list of providers may be missing before; after the first part it is there. -/
theorem SystemLibraryCall.Split.neutral : Neutral SystemLibrary SystemLibraryCall.Split := by
  intro call parts h l
  cases h with
  | providers a b =>
    exact run_closures SystemLibraryCall.providers (fun ps => { l with providers := some ps })
      (fun _ _ => rfl) a b (l.providers.getD [])

inductive BinaryCall.Split : BinaryCall → List BinaryCall → Prop where
  | dependencies (a b) : Split (.dependencies (a ++ b)) [.dependencies a, .dependencies b]

theorem BinaryCall.Split.neutral : Neutral BinaryArtifact BinaryCall.Split := by
  intro call parts h s
  cases h with
  | dependencies a b =>
    exact run_closures BinaryCall.dependencies (fun l => { s with dependencies := l })
      (fun _ _ => rfl) a b s.dependencies

inductive TargetCall.Split {β : Type} (Body : β → List β → Prop) :
    TargetCall β → List (TargetCall β) → Prop where
  | body {call parts} (h : Body call parts) : Split Body (.body call) (parts.map .body)

theorem TargetCall.Split.neutral {β σ : Type} [Call β σ] {Body : β → List β → Prop}
    (hbody : Neutral σ Body) : Neutral (Declared σ) (TargetCall.Split Body) := by
  intro call parts h t
  cases h with
  | body h =>
    exact hbody.lift TargetCall.body (fun b => { t with body := b }) (fun _ _ => rfl) h t.body

/-- The same target, with one call in its closure split. -/
inductive TargetStart.Split : TargetStart → TargetStart → Prop where
  | target (name) {calls calls'} (h : Divided (TargetCall.Split PublicModuleCall.Split) calls calls') :
      Split (.target name calls) (.target name calls')
  | executableTarget (name) {calls calls'}
      (h : Divided (TargetCall.Split PublicModuleCall.Split) calls calls') :
      Split (.executableTarget name calls) (.executableTarget name calls')
  | testTarget (name) {calls calls'}
      (h : Divided (TargetCall.Split SourceModuleCall.Split) calls calls') :
      Split (.testTarget name calls) (.testTarget name calls')
  | plugin (name) {calls calls'} (h : Divided (TargetCall.Split PluginCall.Split) calls calls') :
      Split (.plugin name calls) (.plugin name calls')
  | systemLibrary (name) {calls calls'}
      (h : Divided (TargetCall.Split SystemLibraryCall.Split) calls calls') :
      Split (.systemLibrary name calls) (.systemLibrary name calls')
  | binaryTarget (name url checksum) {calls calls'}
      (h : Divided (TargetCall.Split BinaryCall.Split) calls calls') :
      Split (.binaryTarget name url checksum calls) (.binaryTarget name url checksum calls')
  | binaryTargetPath (name path) {calls calls'}
      (h : Divided (TargetCall.Split BinaryCall.Split) calls calls') :
      Split (.binaryTargetPath name path calls) (.binaryTargetPath name path calls')

theorem TargetStart.Split.node_eq {start start' : TargetStart} (h : start.Split start') :
    start'.node = start.node := by
  cases h with
  | target name h | executableTarget name h =>
    exact congrArg (Declared.map _)
      (h.run_eq (TargetCall.Split.neutral PublicModuleCall.Split.neutral) _)
  | testTarget name h =>
    exact congrArg (Declared.map _)
      (h.run_eq (TargetCall.Split.neutral SourceModuleCall.Split.neutral) _)
  | plugin name h =>
    exact congrArg (Declared.map _)
      (h.run_eq (TargetCall.Split.neutral PluginCall.Split.neutral) _)
  | systemLibrary name h =>
    exact congrArg (Declared.map _)
      (h.run_eq (TargetCall.Split.neutral SystemLibraryCall.Split.neutral) _)
  | binaryTarget name url checksum h =>
    exact congrArg (Declared.map _)
      (h.run_eq (TargetCall.Split.neutral BinaryCall.Split.neutral) _)
  | binaryTargetPath name path h =>
    exact congrArg (Declared.map _)
      (h.run_eq (TargetCall.Split.neutral BinaryCall.Split.neutral) _)

/-- The closure of a call is split in two, or something in the closure of one of its targets is. -/
inductive PackageCall.Split : PackageCall → List PackageCall → Prop where
  | platforms (a b) : Split (.platforms (a ++ b)) [.platforms a, .platforms b]
  | products (a b) : Split (.products (a ++ b)) [.products a, .products b]
  | dependencies (a b) : Split (.dependencies (a ++ b)) [.dependencies a, .dependencies b]
  | targets (a b) : Split (.targets (a ++ b)) [.targets a, .targets b]
  | swiftLanguageVersions (a b) :
      Split (.swiftLanguageVersions (a ++ b)) [.swiftLanguageVersions a, .swiftLanguageVersions b]
  | closure (before after : List TargetAddition) {start start'} (h : start.Split start') :
      Split (.targets (before ++ { start } :: after))
        [.targets (before ++ { start := start' } :: after)]

theorem PackageCall.Split.neutral : Neutral Package PackageCall.Split := by
  intro call parts h p
  cases h with
  | platforms a b =>
    exact run_closures PackageCall.platforms (fun l => { p with platforms := l })
      (fun _ _ => rfl) a b p.platforms
  | products a b =>
    exact run_closures PackageCall.products (fun l => { p with products := l })
      (fun _ _ => rfl) a b p.products
  | dependencies a b =>
    exact run_closures PackageCall.dependencies (fun l => { p with dependencies := l })
      (fun _ _ => rfl) a b p.dependencies
  | targets a b =>
    exact run_closures PackageCall.targets (fun l => { p with targets := l })
      (fun _ _ => rfl) a b p.targets
  | swiftLanguageVersions a b =>
    exact run_closures PackageCall.swiftLanguageVersions
      (fun l => { p with swiftLanguageVersions := l }) (fun _ _ => rfl) a b p.swiftLanguageVersions
  | @closure before after start start' h =>
    have hnodes : (before ++ { start := start' } :: after : List TargetAddition).map
        Addition.node = (before ++ { start } :: after).map Addition.node := by
      rw [List.map_append, List.map_append, List.map_cons, List.map_cons,
        Addition.node_eq, Addition.node_eq]
      exact congrArg (before.map Addition.node ++ · :: after.map Addition.node) h.node_eq
    exact congrArg (fun ts => { p with targets := ts }) (run_additions_congr hnodes p.targets)

/-- From any package: a call leaves what was in the lists in front of what it adds, and so does a
program, call after call; a program may be split at any depth; and calls on a handle change only the
node that was just appended. -/
theorem Package.configuration_appends (p : Package) (calls : List PackageCall) :
    (∀ call, (Construction.ofCalls p (calls ++ [call])).package.collections =
        (Construction.ofCalls p calls).package.collections ++ call.added) ∧
      (Construction.ofCalls p calls).package.collections =
        calls.foldl (fun collections call => collections ++ call.added) p.collections ∧
      (∀ calls', Divided PackageCall.Split calls calls' →
        (Construction.ofCalls p calls').package = (Construction.ofCalls p calls).package) ∧
      ∀ {α β μ : Type} [Start β α] [Call μ α] (start : β) (changes : List μ) (nodes : List α),
        Call.apply (Addition.mk start changes) nodes =
          nodes ++ [run changes (Start.node start)] := by
  simp only [Construction.package_ofCalls]
  refine ⟨fun call => ?_, collections_run calls p,
    fun calls' h => h.run_eq PackageCall.Split.neutral p, ?_⟩
  · rw [run_append]
    exact collections_apply (run calls p) call
  · intro α β μ _ _ start changes nodes
    exact apply_addition (Addition.mk start changes) nodes

/-- Two providers in one call or in two; the first call makes the list. -/
theorem Package.configuration_appends_providers :
    let brew : ProviderAddition := { start := { provider := .brew, packages := ["sqlite"] } }
    let apt : ProviderAddition := { start := { provider := .apt, packages := ["libsqlite3"] } }
    let whole : List (TargetCall SystemLibraryCall) := [.body (.providers [brew, apt])]
    let parts : List (TargetCall SystemLibraryCall) :=
      [.body (.providers [brew]), .body (.providers [apt])]
    let p : Package := { name := "P", targets := [{ name := some "M", body := .regular {} }] }
    (Construction.ofCalls p [.targets [{ start := .systemLibrary "C" parts }]]).package =
      (Construction.ofCalls p [.targets [{ start := .systemLibrary "C" whole }]]).package := by
  intro brew apt whole parts p
  have hproviders : SystemLibraryCall.Split (.providers [brew, apt])
      [.providers [brew], .providers [apt]] := .providers [brew] [apt]
  have hbody : Divided (TargetCall.Split SystemLibraryCall.Split) whole parts :=
    .mk [] [] (TargetCall.Split.body hproviders)
  have hcall : Divided PackageCall.Split [.targets [{ start := .systemLibrary "C" whole }]]
      [.targets [{ start := .systemLibrary "C" parts }]] :=
    .mk [] [] (PackageCall.Split.closure [] [] (.systemLibrary "C" hbody))
  exact (configuration_appends p _).2.2.1 _ hcall

end SwiftManifest
