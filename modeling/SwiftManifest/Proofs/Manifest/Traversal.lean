import SwiftManifest.Model.Package

/-! Walks through a package: the platform entries in it, and the package in which every string and
platform entry is replaced. Version constraints are replaced apart from the other strings. -/

namespace SwiftManifest

structure Replacement where
  text : String → String
  platform : SupportedPlatform → SupportedPlatform

namespace Condition

def entries (c : Option Condition) : List SupportedPlatform :=
  (c.bind Condition.platforms).getD []

def replaced (r : Replacement) (c : Condition) : Condition :=
  { c with platforms := c.platforms.map (·.map r.platform) }

end Condition

namespace Location

def replaced (r : Replacement) : Location → Location
  | .path value => .path (r.text value)
  | .url value => .url (r.text value)

end Location

namespace PackageDependency

def replaced (r : Replacement) (constraint : String → String) (d : PackageDependency) :
    PackageDependency :=
  { location := d.location.replaced r, version := d.version.map constraint }

end PackageDependency

namespace TargetDependency

def entries (d : TargetDependency) : List SupportedPlatform := Condition.entries d.condition

def replaced (r : Replacement) : TargetDependency → TargetDependency
  | .product name package condition =>
    .product (r.text name) (package.map r.text) (condition.map (·.replaced r))
  | .target name condition => .target (r.text name) (condition.map (·.replaced r))
  | .byName name condition => .byName (r.text name) (condition.map (·.replaced r))
  | .literal name => .literal (r.text name)

end TargetDependency

namespace Resource

def replaced (r : Replacement) : Resource → Resource
  | .copy path => .copy (r.text path)
  | .process path localization => .process (r.text path) (localization.map r.text)

end Resource

namespace CompilerOption

def replaced (r : Replacement) : CompilerOption → CompilerOption
  | .headerSearchPath path => .headerSearchPath (r.text path)
  | .define name value => .define (r.text name) (value.map r.text)
  | .unsafeFlags flags => .unsafeFlags (flags.map r.text)

end CompilerOption

namespace LinkerOption

def replaced (r : Replacement) : LinkerOption → LinkerOption
  | .linkedFramework framework => .linkedFramework (r.text framework)
  | .linkedLibrary library => .linkedLibrary (r.text library)
  | .unsafeFlags flags => .unsafeFlags (flags.map r.text)

end LinkerOption

namespace Setting

variable {α : Type}

def entries (s : Setting α) : List SupportedPlatform := Condition.entries s.condition

/-- A setting with its option replaced by `f`. -/
def replaced (f : α → α) (r : Replacement) (s : Setting α) : Setting α :=
  { option := f s.option, condition := s.condition.map (·.replaced r) }

end Setting

namespace PluginUsage

def replaced (r : Replacement) (p : PluginUsage) : PluginUsage :=
  { name := r.text p.name, package := p.package.map r.text }

end PluginUsage

namespace PackageProvider

def replaced (r : Replacement) (p : PackageProvider) : PackageProvider :=
  { p with packages := p.packages.map r.text }

end PackageProvider

namespace CommandIntent

def replaced (r : Replacement) : CommandIntent → CommandIntent
  | .custom verb description => .custom (r.text verb) (r.text description)
  | intent => intent

end CommandIntent

namespace Permission

def replaced (r : Replacement) : Permission → Permission
  | .writeToPackageDirectory reason => .writeToPackageDirectory (r.text reason)

end Permission

namespace CommandCapability

def replaced (r : Replacement) (c : CommandCapability) : CommandCapability :=
  { intent := c.intent.map (·.replaced r), permissions := c.permissions.map (·.replaced r) }

end CommandCapability

namespace Capability

def replaced (r : Replacement) : Capability → Capability
  | .buildTool => .buildTool
  | .command details => .command (details.replaced r)

end Capability

namespace Sources

def entries (s : Sources) : List SupportedPlatform :=
  s.dependencies.flatMap TargetDependency.entries

def replaced (r : Replacement) (s : Sources) : Sources :=
  { exclude := s.exclude.map r.text
    sources := s.sources.map r.text
    dependencies := s.dependencies.map (·.replaced r) }

end Sources

namespace BuildSettings

def entries (b : BuildSettings) : List SupportedPlatform :=
  b.cSettings.flatMap Setting.entries ++ b.cxxSettings.flatMap Setting.entries ++
    b.swiftSettings.flatMap Setting.entries ++ b.linkerSettings.flatMap Setting.entries

def replaced (r : Replacement) (b : BuildSettings) : BuildSettings :=
  { resources := b.resources.map (·.replaced r)
    cSettings := b.cSettings.map (Setting.replaced (·.replaced r) r)
    cxxSettings := b.cxxSettings.map (Setting.replaced (·.replaced r) r)
    swiftSettings := b.swiftSettings.map (Setting.replaced (·.replaced r) r)
    linkerSettings := b.linkerSettings.map (Setting.replaced (·.replaced r) r)
    plugins := b.plugins.map (·.replaced r) }

end BuildSettings

namespace SourceModule

def entries (m : SourceModule) : List SupportedPlatform :=
  m.toSources.entries ++ m.toBuildSettings.entries

def replaced (r : Replacement) (m : SourceModule) : SourceModule :=
  { m.toSources.replaced r, m.toBuildSettings.replaced r with }

end SourceModule

namespace PublicModule

def replaced (r : Replacement) (m : PublicModule) : PublicModule :=
  { m.toSourceModule.replaced r with publicHeadersPath := m.publicHeadersPath.map r.text }

end PublicModule

namespace Plugin

def replaced (r : Replacement) (p : Plugin) : Plugin :=
  { p.toSources.replaced r with capability := p.capability.map (·.replaced r) }

end Plugin

namespace SystemLibrary

def replaced (r : Replacement) (l : SystemLibrary) : SystemLibrary :=
  { pkgConfig := l.pkgConfig.map r.text
    providers := l.providers.map (·.map (·.replaced r)) }

end SystemLibrary

namespace BinaryArtifact

def replaced (r : Replacement) (b : BinaryArtifact) : BinaryArtifact :=
  { url := b.url.map r.text
    checksum := b.checksum.map r.text
    dependencies := b.dependencies.map (·.replaced r) }

end BinaryArtifact

namespace TargetBody

def entries : TargetBody → List SupportedPlatform
  | .regular m | .executable m => m.toSourceModule.entries
  | .test m => m.entries
  | .plugin p => p.toSources.entries
  | .systemLibrary _ => []
  | .binary b => b.dependencies.flatMap TargetDependency.entries

def replaced (r : Replacement) : TargetBody → TargetBody
  | .regular m => .regular (m.replaced r)
  | .executable m => .executable (m.replaced r)
  | .test m => .test (m.replaced r)
  | .plugin p => .plugin (p.replaced r)
  | .systemLibrary l => .systemLibrary (l.replaced r)
  | .binary b => .binary (b.replaced r)

end TargetBody

namespace Declared

def replaced (r : Replacement) (t : Target) : Target :=
  { name := t.name.map r.text, path := t.path.map r.text, body := t.body.replaced r }

end Declared

namespace Product

def replaced (r : Replacement) (p : Product) : Product :=
  { p with name := r.text p.name, targets := p.targets.map r.text }

end Product

namespace SwiftLanguageVersion

def replaced (r : Replacement) : SwiftLanguageVersion → SwiftLanguageVersion
  | .custom version => .custom (r.text version)
  | version => version

end SwiftLanguageVersion

namespace Package

/-- Every platform entry of a package, its own ones and those in conditions. -/
def entries (p : Package) : List SupportedPlatform :=
  p.platforms ++ p.targets.flatMap (·.body.entries)

def replaced (r : Replacement) (constraint : String → String) (p : Package) : Package :=
  { name := r.text p.name
    defaultLocalization := p.defaultLocalization.map r.text
    platforms := p.platforms.map r.platform
    products := p.products.map (·.replaced r)
    dependencies := p.dependencies.map (·.replaced r constraint)
    targets := p.targets.map (·.replaced r)
    swiftLanguageVersions := p.swiftLanguageVersions.map (·.replaced r)
    cLanguageStandard := p.cLanguageStandard
    cxxLanguageStandard := p.cxxLanguageStandard }

end Package

/-! A replacement that leaves strings and the platform entries of a package as they are leaves the
package as it is. -/

section Fixed

variable {α : Type} {F : α → α} {r : Replacement}

theorem map_eq_self {as : List α} (h : ∀ a ∈ as, F a = a) : as.map F = as :=
  (List.map_congr_left h).trans (List.map_id as)

theorem option_map_eq_self {a : Option α} (h : ∀ b ∈ a, F b = b) : a.map F = a := by
  cases a with
  | none => rfl
  | some b => rw [Option.map_some, h b rfl]

theorem map_text_eq_self (ht : r.text = id) (values : List String) :
    values.map r.text = values := by
  rw [ht, List.map_id]

theorem option_map_text_eq_self (ht : r.text = id) (value : Option String) :
    value.map r.text = value := by
  rw [ht, Option.map_id, id]

theorem Condition.optional_eq_self {c : Option Condition} (h : ∀ s ∈ entries c, r.platform s = s) :
    c.map (·.replaced r) = c := by
  apply option_map_eq_self
  intro c' hc
  obtain rfl : c = some c' := hc
  have hplatforms : c'.platforms.map (·.map r.platform) = c'.platforms := by
    apply option_map_eq_self
    intro ps hps
    apply map_eq_self
    intro s hs
    apply h s
    simpa [entries, Option.mem_def.mp hps] using hs
  rw [replaced, hplatforms]

theorem PackageDependency.replaced_eq_self (ht : r.text = id) (d : PackageDependency) :
    d.replaced r id = d := by
  rcases d with ⟨location, version⟩
  cases location <;> simp [replaced, Location.replaced, ht]

theorem TargetDependency.replaced_eq_self (ht : r.text = id) {d : TargetDependency}
    (h : ∀ s ∈ d.entries, r.platform s = s) : d.replaced r = d := by
  have hcondition := Condition.optional_eq_self h
  cases d <;> simp_all [replaced, TargetDependency.condition]

theorem Resource.replaced_eq_self (ht : r.text = id) (a : Resource) : a.replaced r = a := by
  cases a <;> simp [replaced, ht]

theorem CompilerOption.replaced_eq_self (ht : r.text = id) (o : CompilerOption) :
    o.replaced r = o := by
  cases o <;> simp [replaced, ht]

theorem LinkerOption.replaced_eq_self (ht : r.text = id) (o : LinkerOption) : o.replaced r = o := by
  cases o <;> simp [replaced, ht]

theorem Setting.map_replaced_eq_self {ss : List (Setting α)} (hF : ∀ a, F a = a)
    (h : ∀ p ∈ ss.flatMap entries, r.platform p = p) : ss.map (replaced F r) = ss := by
  rw [List.forall_mem_flatMap] at h
  apply map_eq_self
  intro s hs
  rw [replaced, hF, Condition.optional_eq_self (h s hs)]

theorem PluginUsage.replaced_eq_self (ht : r.text = id) (p : PluginUsage) : p.replaced r = p := by
  simp [replaced, ht]

theorem PackageProvider.replaced_eq_self (ht : r.text = id) (p : PackageProvider) :
    p.replaced r = p := by
  simp [replaced, ht]

theorem Capability.replaced_eq_self (ht : r.text = id) (c : Capability) : c.replaced r = c := by
  have hintent (i : CommandIntent) : i.replaced r = i := by
    cases i <;> simp [CommandIntent.replaced, ht]
  have hpermission (p : Permission) : p.replaced r = p := by
    cases p
    simp [Permission.replaced, ht]
  cases c with
  | buildTool => rfl
  | command details => simp [replaced, CommandCapability.replaced, hintent, hpermission]

theorem Sources.replaced_eq_self (ht : r.text = id) {s : Sources}
    (h : ∀ p ∈ s.entries, r.platform p = p) : s.replaced r = s := by
  have hdependencies : s.dependencies.map (·.replaced r) = s.dependencies := by
    rw [entries, List.forall_mem_flatMap] at h
    apply map_eq_self
    intro d hd
    exact TargetDependency.replaced_eq_self ht (h d hd)
  rw [replaced, hdependencies, map_text_eq_self ht, map_text_eq_self ht]

theorem BuildSettings.replaced_eq_self (ht : r.text = id) {b : BuildSettings}
    (h : ∀ p ∈ b.entries, r.platform p = p) : b.replaced r = b := by
  simp only [entries, List.forall_mem_append] at h
  rcases h with ⟨⟨⟨hc, hcxx⟩, hswift⟩, hlinker⟩
  have hcompiler := CompilerOption.replaced_eq_self ht
  have hresources := map_eq_self fun a (_ : a ∈ b.resources) => a.replaced_eq_self ht
  have hplugins := map_eq_self fun p (_ : p ∈ b.plugins) => p.replaced_eq_self ht
  rw [replaced, hresources, hplugins, Setting.map_replaced_eq_self hcompiler hc,
    Setting.map_replaced_eq_self hcompiler hcxx, Setting.map_replaced_eq_self hcompiler hswift,
    Setting.map_replaced_eq_self (LinkerOption.replaced_eq_self ht) hlinker]

theorem SourceModule.replaced_eq_self (ht : r.text = id) {m : SourceModule}
    (h : ∀ p ∈ m.entries, r.platform p = p) : m.replaced r = m := by
  rcases List.forall_mem_append.mp h with ⟨hsources, hsettings⟩
  rw [replaced, Sources.replaced_eq_self ht hsources, BuildSettings.replaced_eq_self ht hsettings]

theorem PublicModule.replaced_eq_self (ht : r.text = id) {m : PublicModule}
    (h : ∀ p ∈ m.toSourceModule.entries, r.platform p = p) : m.replaced r = m := by
  rw [replaced, SourceModule.replaced_eq_self ht h, option_map_text_eq_self ht]

theorem TargetBody.replaced_eq_self (ht : r.text = id) {body : TargetBody}
    (h : ∀ p ∈ body.entries, r.platform p = p) : body.replaced r = body := by
  cases body with
  | regular m => exact congrArg regular (PublicModule.replaced_eq_self ht h)
  | executable m => exact congrArg executable (PublicModule.replaced_eq_self ht h)
  | test m => exact congrArg test (SourceModule.replaced_eq_self ht h)
  | plugin p =>
    have hcapability := option_map_eq_self fun c (_ : c ∈ p.capability) => c.replaced_eq_self ht
    rw [replaced, Plugin.replaced, Sources.replaced_eq_self ht h, hcapability]
  | systemLibrary l =>
    have hproviders : l.providers.map (·.map (·.replaced r)) = l.providers := by
      apply option_map_eq_self
      intro ps _
      apply map_eq_self
      intro p _
      exact p.replaced_eq_self ht
    rw [replaced, SystemLibrary.replaced, hproviders, option_map_text_eq_self ht]
  | binary b =>
    have hdependencies : b.dependencies.map (·.replaced r) = b.dependencies := by
      rw [entries, List.forall_mem_flatMap] at h
      apply map_eq_self
      intro d hd
      exact TargetDependency.replaced_eq_self ht (h d hd)
    rw [replaced, BinaryArtifact.replaced, hdependencies, option_map_text_eq_self ht,
      option_map_text_eq_self ht]

theorem Declared.replaced_eq_self (ht : r.text = id) {t : Target}
    (h : ∀ p ∈ t.body.entries, r.platform p = p) : t.replaced r = t := by
  rw [replaced, TargetBody.replaced_eq_self ht h, option_map_text_eq_self ht,
    option_map_text_eq_self ht]

theorem Product.replaced_eq_self (ht : r.text = id) (p : Product) : p.replaced r = p := by
  simp [replaced, ht]

theorem SwiftLanguageVersion.replaced_eq_self (ht : r.text = id) (v : SwiftLanguageVersion) :
    v.replaced r = v := by
  cases v <;> simp [replaced, ht]

theorem Package.replaced_eq_self (ht : r.text = id) {p : Package}
    (h : ∀ s ∈ p.entries, r.platform s = s) : p.replaced r id = p := by
  rcases List.forall_mem_append.mp h with ⟨hplatforms, htargets⟩
  rw [List.forall_mem_flatMap] at htargets
  have hproducts := map_eq_self fun a (_ : a ∈ p.products) => a.replaced_eq_self ht
  have hdependencies := map_eq_self fun d (_ : d ∈ p.dependencies) => d.replaced_eq_self ht
  have hversions := map_eq_self fun v (_ : v ∈ p.swiftLanguageVersions) => v.replaced_eq_self ht
  have htargets := map_eq_self fun t hmem => Declared.replaced_eq_self ht (htargets t hmem)
  rw [replaced, map_eq_self hplatforms, hproducts, hdependencies, htargets, hversions,
    option_map_text_eq_self ht, ht, id]

end Fixed

end SwiftManifest
