import SwiftManifest.Proofs.Configuration.Configurable

/-! A configuration for every package that calls keep to. Each part is reached field by field from
where its first call starts; parts in lists are added one by one. -/

namespace SwiftManifest

theorem SupportedPlatform.made (p : SupportedPlatform) : Made PlatformStart VersionCall p := by
  have hversionString : Reaches VersionCall ({ platform := p.platform } : SupportedPlatform)
      { p with version := none } :=
    .option VersionCall.versionString (fun o => { p with versionString := o, version := none })
      (fun _ => rfl) p.versionString
  have hversion : Reaches VersionCall ({ p with version := none } : SupportedPlatform) p :=
    .option VersionCall.version (fun o => { p with version := o }) (fun _ => rfl) p.version
  exact .start (.platform p.platform) (hversionString.trans hversion)

theorem exists_platforms (ps : List SupportedPlatform) :
    ∃ additions : List PlatformAddition, run additions [] = ps :=
  exists_additions fun p _ => p.made

theorem Condition.reaches (c : Condition) : Reaches ConditionCall ({} : Condition) c := by
  have hplatforms : Reaches ConditionCall ({} : Condition) { c with configuration := none } := by
    rcases c with ⟨_ | ps, configuration⟩
    · exact .refl _
    · obtain ⟨additions, rfl⟩ := exists_platforms ps
      exact .single (ConditionCall.platforms additions) rfl
  have hconfiguration : Reaches ConditionCall ({ c with configuration := none } : Condition) c :=
    .option ConditionCall.configuration (fun o => { c with configuration := o }) (fun _ => rfl)
      c.configuration
  exact hplatforms.trans hconfiguration

section Nodes

theorem Resource.made (r : Resource) : Made ResourceStart Empty r := by
  cases r with
  | copy path => exact .start (.copy path) (.refl _)
  | process path localization =>
    cases localization with
    | none => exact .start (.process path) (.refl _)
    | some localization => exact .start (.processLocalized path localization) (.refl _)

theorem PluginUsage.made (p : PluginUsage) : Made PluginUsageStart Empty p := by
  rcases p with ⟨name, _ | package⟩
  · exact .start (.plugin name) (.refl _)
  · exact .start (.pluginFrom name package) (.refl _)

theorem PackageProvider.made (p : PackageProvider) : Made PackageProvider Empty p :=
  .start p (.refl p)

theorem SwiftLanguageVersion.made (v : SwiftLanguageVersion) :
    Made SwiftLanguageVersion Empty v :=
  .start v (.refl v)

theorem Product.made (p : Product) : Made ProductStart Empty p := by
  rcases p with ⟨kind, name, targets⟩
  cases kind with
  | library linkage =>
    cases linkage with
    | none => exact .start (.library name targets) (.refl _)
    | some linkage => exact .start (.libraryWithLinkage name linkage targets) (.refl _)
  | executable => exact .start (.executable name targets) (.refl _)
  | plugin => exact .start (.plugin name targets) (.refl _)

theorem PackageDependency.made (d : PackageDependency) : Made Location ConstraintCall d :=
  .start d.location
    (.option ConstraintCall.mk (fun o => { d with version := o }) (fun _ => rfl) d.version)

/-- A setting is restricted by one call with the calls for its condition. -/
theorem Setting.reaches {α : Type} (s : Setting α) :
    Reaches SettingRestriction ({ option := s.option } : Setting α) s := by
  rcases s with ⟨option, _ | condition⟩
  · exact .refl _
  · obtain ⟨calls, rfl⟩ := condition.reaches
    exact .single (SettingRestriction.mk calls) rfl

theorem CompilerSetting.made (s : CompilerSetting) :
    Made CompilerSettingStart SettingRestriction s := by
  have hreaches := Setting.reaches s
  rcases s with ⟨option, condition⟩
  cases option with
  | headerSearchPath path => exact .start (.headerSearchPath path) hreaches
  | define name value =>
    cases value with
    | none => exact .start (.define name) hreaches
    | some value => exact .start (.defineTo name value) hreaches
  | unsafeFlags flags => exact .start (.unsafeFlags flags) hreaches

theorem LinkerSetting.made (s : LinkerSetting) :
    Made LinkerSettingStart SettingRestriction s := by
  have hreaches := Setting.reaches s
  rcases s with ⟨option, condition⟩
  cases option with
  | linkedFramework framework => exact .start (.linkedFramework framework) hreaches
  | linkedLibrary library => exact .start (.linkedLibrary library) hreaches
  | unsafeFlags flags => exact .start (.unsafeFlags flags) hreaches

/-- A condition on platforms is installed by one restriction, or by none. -/
theorem TargetDependency.reaches (set : Option Condition → TargetDependency)
    (hset : ∀ ps, (set none).restrict ps = set (some { platforms := some ps }))
    {condition : Option Condition} (h : ∀ c ∈ condition, c.PlatformsOnly) :
    Reaches PlatformRestriction (set none) (set condition) := by
  cases condition with
  | none => exact .refl _
  | some c =>
    obtain ⟨hplatforms, hconfiguration⟩ := h c rfl
    rcases c with ⟨_ | ps, configuration⟩
    · cases hplatforms
    · cases hconfiguration
      obtain ⟨additions, rfl⟩ := exists_platforms ps
      exact .single (PlatformRestriction.mk additions) (hset (run additions []))

theorem TargetDependency.made {d : TargetDependency} (h : d.Configurable) :
    Made TargetDependencyStart PlatformRestriction d := by
  cases d with
  | product name package condition =>
    have hcondition := reaches (product name package) (fun _ => rfl) h
    cases package with
    | none => exact .start (.product name) hcondition
    | some package => exact .start (.productIn name package) hcondition
  | target name condition => exact .start (.target name) (reaches (target name) (fun _ => rfl) h)
  | byName name condition => exact .start (.byName name) (reaches (byName name) (fun _ => rfl) h)
  | literal name => exact .start (.literal name) (.refl _)

end Nodes

section Layers

theorem Sources.reaches {s : Sources} (h : AllConfigurable s.dependencies) :
    Reaches SourceCall ({} : Sources) s := by
  have hexclude : Reaches SourceCall ({} : Sources) { exclude := s.exclude } :=
    .single (SourceCall.exclude s.exclude) rfl
  have hsources : Reaches SourceCall ({ exclude := s.exclude } : Sources)
      { s with dependencies := [] } :=
    .single (SourceCall.sources s.sources) rfl
  have hdependencies : Reaches SourceCall ({ s with dependencies := [] } : Sources) s :=
    .list SourceCall.dependencies (fun ds => { s with dependencies := ds }) (fun _ => rfl)
      fun d hd => TargetDependency.made (h d hd)
  exact (hexclude.trans hsources).trans hdependencies

theorem BuildSettings.reaches (b : BuildSettings) : Reaches BuildCall {} b := by
  let empty : BuildSettings := {}
  let withResources := { empty with resources := b.resources }
  let withC := { withResources with cSettings := b.cSettings }
  let withCxx := { withC with cxxSettings := b.cxxSettings }
  let withSwift := { withCxx with swiftSettings := b.swiftSettings }
  have hresources : Reaches BuildCall empty withResources :=
    .list BuildCall.resources (fun l => { empty with resources := l }) (fun _ => rfl)
      fun r _ => r.made
  have hc : Reaches BuildCall withResources withC :=
    .list BuildCall.cSettings (fun l => { withResources with cSettings := l }) (fun _ => rfl)
      fun s _ => CompilerSetting.made s
  have hcxx : Reaches BuildCall withC withCxx :=
    .list BuildCall.cxxSettings (fun l => { withC with cxxSettings := l }) (fun _ => rfl)
      fun s _ => CompilerSetting.made s
  have hswift : Reaches BuildCall withCxx withSwift :=
    .list BuildCall.swiftSettings (fun l => { withCxx with swiftSettings := l }) (fun _ => rfl)
      fun s _ => CompilerSetting.made s
  have hlinker : Reaches BuildCall withSwift { b with plugins := [] } :=
    .list BuildCall.linkerSettings (fun l => { withSwift with linkerSettings := l })
      (fun _ => rfl) fun s _ => LinkerSetting.made s
  have hplugins : Reaches BuildCall { b with plugins := [] } b :=
    .list BuildCall.plugins (fun l => { b with plugins := l }) (fun _ => rfl)
      fun p _ => p.made
  exact hresources.trans (hc.trans (hcxx.trans (hswift.trans (hlinker.trans hplugins))))

theorem SourceModule.reaches {m : SourceModule} (h : AllConfigurable m.dependencies) :
    Reaches SourceModuleCall ({} : SourceModule) m := by
  have hsources : Reaches SourceModuleCall ({} : SourceModule) { toSources := m.toSources } :=
    (Sources.reaches h).lift SourceModuleCall.source (fun s => ({ toSources := s } : SourceModule))
      fun _ _ => rfl
  have hsettings : Reaches SourceModuleCall ({ toSources := m.toSources } : SourceModule) m :=
    m.toBuildSettings.reaches.lift SourceModuleCall.build (fun b => { m with toBuildSettings := b })
      fun _ _ => rfl
  exact hsources.trans hsettings

theorem PublicModule.reaches {m : PublicModule} (h : AllConfigurable m.dependencies) :
    Reaches PublicModuleCall ({} : PublicModule) m := by
  have hmodule : Reaches PublicModuleCall ({} : PublicModule)
      { toSourceModule := m.toSourceModule } :=
    (SourceModule.reaches h).lift PublicModuleCall.module
      (fun s => ({ toSourceModule := s } : PublicModule)) fun _ _ => rfl
  have hheaders : Reaches PublicModuleCall
      ({ toSourceModule := m.toSourceModule } : PublicModule) m :=
    .option PublicModuleCall.publicHeadersPath (fun o => { m with publicHeadersPath := o })
      (fun _ => rfl) m.publicHeadersPath
  exact hmodule.trans hheaders

theorem CommandCapability.reaches (c : CommandCapability) :
    Reaches CommandCall ({} : CommandCapability) c := by
  rcases c with ⟨intent, permissions⟩
  have hintent : Reaches CommandCall ({} : CommandCapability) { intent } := by
    cases intent with
    | none => exact .refl _
    | some intent =>
      cases intent with
      | documentationGeneration => exact .single CommandCall.documentationGeneration rfl
      | sourceCodeFormatting => exact .single CommandCall.sourceCodeFormatting rfl
      | custom verb description => exact .single (CommandCall.customIntent verb description) rfl
  have hpermissions : Reaches CommandCall ({ intent } : CommandCapability)
      { intent, permissions } := by
    have hreasons : ∃ reasons : List String,
        reasons.map Permission.writeToPackageDirectory = permissions := by
      induction permissions with
      | nil => exact ⟨[], rfl⟩
      | cons permission _ ih =>
        obtain ⟨reasons, rfl⟩ := ih
        obtain ⟨reason⟩ := permission
        exact ⟨reason :: reasons, rfl⟩
    obtain ⟨reasons, rfl⟩ := hreasons
    exact .single (CommandCall.permissions reasons) rfl
  exact hintent.trans hpermissions

theorem Plugin.reaches {p : Plugin} (h : AllConfigurable p.dependencies) :
    Reaches PluginCall ({} : Plugin) p := by
  rcases p with ⟨sources, capability⟩
  have hsources : Reaches PluginCall ({} : Plugin) { toSources := sources } :=
    (Sources.reaches h).lift PluginCall.source (fun s => ({ toSources := s } : Plugin))
      fun _ _ => rfl
  have hcapability : Reaches PluginCall ({ toSources := sources } : Plugin)
      { toSources := sources, capability } := by
    cases capability with
    | none => exact .refl _
    | some capability =>
      cases capability with
      | buildTool => exact .single PluginCall.buildTool rfl
      | command c =>
        obtain ⟨calls, rfl⟩ := c.reaches
        exact .single (PluginCall.command calls) rfl
  exact hsources.trans hcapability

theorem SystemLibrary.reaches (l : SystemLibrary) :
    Reaches SystemLibraryCall ({} : SystemLibrary) l := by
  rcases l with ⟨pkgConfig, providers⟩
  have hpkgConfig : Reaches SystemLibraryCall ({} : SystemLibrary) { pkgConfig } :=
    .option SystemLibraryCall.pkgConfig (fun o => ({ pkgConfig := o } : SystemLibrary))
      (fun _ => rfl) pkgConfig
  have hproviders : Reaches SystemLibraryCall ({ pkgConfig } : SystemLibrary)
      { pkgConfig, providers } := by
    cases providers with
    | none => exact .refl _
    | some ps =>
      obtain ⟨additions, rfl⟩ := exists_additions fun p (_ : p ∈ ps) => p.made
      exact .single (SystemLibraryCall.providers additions) rfl
  exact hpkgConfig.trans hproviders

end Layers

section Targets

variable {β σ : Type} [Call β σ]

/-- The name of a target is the one it starts with, or it is cleared. -/
theorem Declared.reaches_name (name path : Option String) (body : σ) :
    ∃ first : String, Reaches (TargetCall β) ({ name := some first, path, body } : Declared σ)
      { name, path, body } := by
  cases name with
  | none => exact ⟨"", .single TargetCall.clearName rfl⟩
  | some name => exact ⟨name, .refl _⟩

theorem Declared.reaches_path (name path : Option String) (body : σ) :
    Reaches (TargetCall β) ({ name, body } : Declared σ) { name, path, body } :=
  .option TargetCall.path (fun o => ({ name, path := o, body } : Declared σ)) (fun _ => rfl) path

theorem Declared.reaches_body {name path : Option String} {body body' : σ}
    (h : Reaches β body body') :
    Reaches (TargetCall β) ({ name, path, body } : Declared σ) { name, path, body := body' } :=
  h.lift TargetCall.body (fun b => ({ name, path, body := b } : Declared σ)) fun _ _ => rfl

/-- A target is reached when its body is, from a first name that it may lose. -/
theorem Declared.exists_calls {body body' : σ} (h : Reaches β body body')
    (name path : Option String) : ∃ first, ∃ calls : List (TargetCall β),
      run calls (TargetStart.named first body) = { name, path, body := body' } := by
  obtain ⟨first, hname⟩ := reaches_name (β := β) name none body
  obtain ⟨calls, hcalls⟩ := hname.trans ((reaches_path name path body).trans (reaches_body h))
  exact ⟨first, calls, hcalls⟩

theorem BinaryArtifact.reaches_dependencies {b : BinaryArtifact}
    (h : AllConfigurable b.dependencies) : Reaches BinaryCall { b with dependencies := [] } b :=
  .list BinaryCall.dependencies (fun ds => { b with dependencies := ds }) (fun _ => rfl)
    fun d hd => TargetDependency.made (h d hd)

theorem BinaryArtifact.reaches {b : BinaryArtifact} (h : AllConfigurable b.dependencies) :
    Reaches BinaryCall {} b := by
  have hurl : Reaches BinaryCall ({} : BinaryArtifact) { url := b.url } :=
    .option BinaryCall.url (fun o => ({ url := o } : BinaryArtifact)) (fun _ => rfl) b.url
  have hchecksum : Reaches BinaryCall { url := b.url } { b with dependencies := [] } :=
    .option BinaryCall.checksum (fun o => { b with checksum := o, dependencies := [] })
      (fun _ => rfl) b.checksum
  exact (hurl.trans hchecksum).trans (reaches_dependencies h)

/-- A binary target starts at a path or at a URL with a checksum. -/
theorem BinaryArtifact.made {b : BinaryArtifact} {name path : Option String}
    (hdependencies : AllConfigurable b.dependencies) (h : path.isSome ∨ b.Remote) :
    Made TargetStart Empty { name, path, body := TargetBody.binary b } := by
  rcases h with hpath | hremote
  · cases path with
    | none => cases hpath
    | some path =>
      obtain ⟨first, hname⟩ := Declared.reaches_name (β := BinaryCall) name (some path)
        ({} : BinaryArtifact)
      obtain ⟨calls, hcalls⟩ := hname.trans (Declared.reaches_body (reaches hdependencies))
      exact .unchanged (.binaryTargetPath first path calls)
        (congrArg (Declared.map TargetBody.binary) hcalls)
  · obtain ⟨hurl, hchecksum⟩ := hremote
    rcases b with ⟨_ | url, _ | checksum, dependencies⟩
    · cases hurl
    · cases hurl
    · cases hchecksum
    · obtain ⟨first, calls, hcalls⟩ :=
        Declared.exists_calls (reaches_dependencies hdependencies) name path
      exact .unchanged (.binaryTarget first url checksum calls)
        (congrArg (Declared.map TargetBody.binary) hcalls)

end Targets

theorem Declared.made {t : Target} (hdependencies : AllConfigurable t.body.dependencies)
    (hbinary : ∀ b, t.body = .binary b → t.path.isSome ∨ b.Remote) : Made TargetStart Empty t := by
  rcases t with ⟨name, path, body⟩
  cases body with
  | regular m =>
    obtain ⟨first, calls, hcalls⟩ := exists_calls (PublicModule.reaches hdependencies) name path
    exact .unchanged (.target first calls) (congrArg (map TargetBody.regular) hcalls)
  | executable m =>
    obtain ⟨first, calls, hcalls⟩ := exists_calls (PublicModule.reaches hdependencies) name path
    exact .unchanged (.executableTarget first calls) (congrArg (map TargetBody.executable) hcalls)
  | test m =>
    obtain ⟨first, calls, hcalls⟩ := exists_calls (SourceModule.reaches hdependencies) name path
    exact .unchanged (.testTarget first calls) (congrArg (map TargetBody.test) hcalls)
  | plugin p =>
    obtain ⟨first, calls, hcalls⟩ := exists_calls (Plugin.reaches hdependencies) name path
    exact .unchanged (.plugin first calls) (congrArg (map TargetBody.plugin) hcalls)
  | systemLibrary l =>
    obtain ⟨first, calls, hcalls⟩ := exists_calls l.reaches name path
    exact .unchanged (.systemLibrary first calls) (congrArg (map TargetBody.systemLibrary) hcalls)
  | binary b => exact BinaryArtifact.made hdependencies (hbinary b rfl)

theorem Package.reaches {p : Package} (h : p.Configurable) :
    Reaches PackageCall { name := p.name } p := by
  let empty : Package := { name := p.name }
  let localized := { empty with defaultLocalization := p.defaultLocalization }
  let placed := { localized with platforms := p.platforms }
  let offering := { placed with products := p.products }
  let depending := { offering with dependencies := p.dependencies }
  let building := { depending with targets := p.targets }
  let versioned := { building with swiftLanguageVersions := p.swiftLanguageVersions }
  have hlocalization : Reaches PackageCall empty localized :=
    .option PackageCall.defaultLocalization (fun o => { empty with defaultLocalization := o })
      (fun _ => rfl) p.defaultLocalization
  have hplatforms : Reaches PackageCall localized placed :=
    .list PackageCall.platforms (fun l => { localized with platforms := l }) (fun _ => rfl)
      fun platform _ => platform.made
  have hproducts : Reaches PackageCall placed offering :=
    .list PackageCall.products (fun l => { placed with products := l }) (fun _ => rfl)
      fun product _ => product.made
  have hdependencies : Reaches PackageCall offering depending :=
    .list PackageCall.dependencies (fun l => { offering with dependencies := l }) (fun _ => rfl)
      fun dependency _ => dependency.made
  have htargets : Reaches PackageCall depending building :=
    .list PackageCall.targets (fun l => { depending with targets := l }) (fun _ => rfl)
      fun t ht => Declared.made (h.dependencies t ht) (h.binaries t ht)
  have hversions : Reaches PackageCall building versioned :=
    .list PackageCall.swiftLanguageVersions
      (fun l => { building with swiftLanguageVersions := l }) (fun _ => rfl)
      fun version _ => version.made
  have hc : Reaches PackageCall versioned { p with cxxLanguageStandard := none } :=
    .option PackageCall.cLanguageStandard (fun o => { versioned with cLanguageStandard := o })
      (fun _ => rfl) p.cLanguageStandard
  have hcxx : Reaches PackageCall { p with cxxLanguageStandard := none } p :=
    .option PackageCall.cxxLanguageStandard (fun o => { p with cxxLanguageStandard := o })
      (fun _ => rfl) p.cxxLanguageStandard
  exact hlocalization.trans (hplatforms.trans (hproducts.trans (hdependencies.trans
    (htargets.trans (hversions.trans (hc.trans hcxx))))))

/-- Calls on a new package lead to the configurable packages and to no others, and from a
configurable package to configurable packages only. -/
theorem Package.configured_iff_configurable (p : Package) :
    ((∃ calls, (Construction.ofCalls { name := p.name } calls).package = p) ↔ p.Configurable) ∧
      (p.Configurable → ∀ calls, (Construction.ofCalls p calls).package.Configurable) := by
  simp only [Construction.package_ofCalls]
  refine ⟨⟨?_, Package.reaches⟩, fun h calls => h.run calls⟩
  rintro ⟨calls, hcalls⟩
  rw [← hcalls]
  exact (Configurable.new p.name).run calls

/-- A product that is only wanted on some platforms, and a binary without a name at a path. -/
theorem Package.configured_conditional :
    let conditional : TargetDependency :=
      .product "Log" none (some { platforms := some [{ platform := .linux }] })
    let module : PublicModule := { dependencies := [conditional] }
    let p : Package := { name := "P", targets := [{ name := some "M", body := .regular module },
      { path := some "B.xcframework", body := .binary {} }] }
    ∃ calls, (Construction.ofCalls { name := "P" } calls).package = p := by
  intro conditional module p
  have hconditional : conditional.Configurable := by
    intro c hc
    cases hc
    exact ⟨rfl, rfl⟩
  have hp : p.Configurable := by
    constructor
    · simpa [p, module, TargetBody.dependencies] using hconditional
    · simp [p]
  exact (configured_iff_configurable p).1.mpr hp

end SwiftManifest
