import SwiftManifest.Proofs.Manifest.Forms
import SwiftManifest.Proofs.Manifest.Replaced
import SwiftManifest.Proofs.Manifest.WellFormed
import SwiftManifest.Proofs.Symbolic

/-! The text of a manifest determines its package, up to platform versions that are overridden. -/

namespace SwiftManifest

open Expression (form forms)

namespace SupportedPlatform

/-- An empty literal version counts as none. The symbolic version goes where it is not written: for
a custom platform, and beside a literal version. -/
def norm (p : SupportedPlatform) : SupportedPlatform :=
  { p with
    versionString := p.literalVersion
    version := if p.platform.isCustom ∨ p.literalVersion.isSome then none else p.version }

@[simp] theorem literalVersion_norm (p : SupportedPlatform) :
    p.norm.literalVersion = p.literalVersion := by
  simp [norm, literalVersion, Option.filter_filter]

theorem expression_norm (p : SupportedPlatform) : p.norm.expression = p.expression := by
  cases hcustom : p.platform.isCustom with
  | true =>
    obtain ⟨name, hname⟩ := exists_custom hcustom
    have hnorm : p.norm.platform = .custom name := hname
    rw [expression_of_custom hname, expression_of_custom hnorm, literalVersion_norm]
  | false =>
    have hnorm : p.norm.platform.isCustom = false := hcustom
    rw [expression_of_known hcustom, expression_of_known hnorm, literalVersion_norm]
    cases hliteral : p.literalVersion with
    | some version => rfl
    | none => simp [norm, hcustom, hliteral]

theorem identifier_inj {a b : Platform} (ha : a.isCustom = false) (hb : b.isCustom = false)
    (h : a.identifier = b.identifier) : a = b := by
  have hnodup : (Platform.known.map Platform.identifier).Nodup := by decide
  have hmem : ∀ c : Platform, c.isCustom = false → c ∈ Platform.known := by
    intro c hc
    cases c with
    | custom name => simp [Platform.isCustom] at hc
    | _ => decide
  exact List.inj_on_of_nodup_map hnodup (hmem a ha) (hmem b hb) h

theorem custom_ne_identifier {platform : Platform} (h : platform.isCustom = false) :
    ".custom" ≠ "." ++ platform.identifier := by
  cases platform with
  | custom name => simp [Platform.isCustom] at h
  | _ => decide

theorem norm_of_custom {p : SupportedPlatform} {name : String} (h : p.platform = .custom name) :
    p.norm = { platform := .custom name, versionString := p.literalVersion } := by
  simp [norm, h, Platform.isCustom]

theorem norm_of_known {p : SupportedPlatform} (h : p.platform.isCustom = false) :
    p.norm =
      { platform := p.platform, versionString := p.literalVersion
        version := if p.literalVersion.isSome then none else p.version } := by
  simp [norm, h]

/-- The three ways to write a platform that the manifest knows by name. -/
inductive Written (p : SupportedPlatform) (platform : Platform) : Form → Prop
  | literal {version : String} : p.norm = { platform, versionString := some version } →
      Written p platform (.call ("." ++ platform.identifier) [.literal version])
  | symbolic {version : String} : p.norm = { platform, version := some version } →
      Written p platform (.call ("." ++ platform.identifier) [.symbol version])
  | bare : p.norm = { platform } → Written p platform (.symbol platform.identifier)

theorem written_form {p : SupportedPlatform} (h : p.platform.isCustom = false) :
    Written p p.platform p.expression.form := by
  rw [expression_of_known h]
  have hnorm := norm_of_known h
  split
  · rename_i version _ hliteral
    exact .literal (by simp [hnorm, hliteral])
  · rename_i version hliteral hversion
    exact .symbolic (by simp [hnorm, hliteral, hversion])
  · rename_i hliteral hversion
    exact .bare (by simp [hnorm, hliteral, hversion])

theorem Written.ne_custom {p : SupportedPlatform} {platform : Platform} {f : Form}
    (h : Written p platform f) (hknown : platform.isCustom = false) (arguments : List Form) :
    f ≠ .call ".custom" arguments := by
  have hne := custom_ne_identifier hknown
  cases h with
  | literal _ => simp [hne.symm]
  | symbolic _ => simp [hne.symm]
  | bare _ => simp

theorem Written.norm_eq {p q : SupportedPlatform} {a b : Platform} {f g : Form}
    (hp : Written p a f) (hq : Written q b g) (ha : a.isCustom = false)
    (hb : b.isCustom = false) (h : f = g) : p.norm = q.norm := by
  cases hp <;> cases hq <;> simp [String.append_right_inj] at h
  case literal.literal hnorm version' hnorm' =>
    rcases h with ⟨hidentifier, rfl⟩
    rw [hnorm, hnorm', identifier_inj ha hb hidentifier]
  case symbolic.symbolic hnorm version' hnorm' =>
    rcases h with ⟨hidentifier, rfl⟩
    rw [hnorm, hnorm', identifier_inj ha hb hidentifier]
  case bare.bare hnorm hnorm' => rw [hnorm, hnorm', identifier_inj ha hb h]

theorem norm_eq_of_form_eq {p q : SupportedPlatform}
    (h : p.expression.form = q.expression.form) : p.norm = q.norm := by
  cases hp : p.platform.isCustom with
  | true =>
    obtain ⟨name, hname⟩ := exists_custom hp
    rw [expression_of_custom hname] at h
    cases hq : q.platform.isCustom with
    | true =>
      obtain ⟨name', hname'⟩ := exists_custom hq
      rw [expression_of_custom hname'] at h
      simp at h
      rw [norm_of_custom hname, norm_of_custom hname', h.1, h.2]
    | false => exact absurd h.symm ((written_form hq).ne_custom hq _)
  | false =>
    cases hq : q.platform.isCustom with
    | true =>
      obtain ⟨name', hname'⟩ := exists_custom hq
      rw [expression_of_custom hname'] at h
      exact absurd h ((written_form hp).ne_custom hp _)
    | false => exact (written_form hp).norm_eq (written_form hq) hp hq h

end SupportedPlatform

def normalizing : Replacement where
  text := id
  platform := SupportedPlatform.norm

/-- The package with every platform entry in normal form. -/
def Package.norm (p : Package) : Package := p.replaced normalizing id

section Inert

/-! Nodes without platform entries: their forms determine them as they are. -/

variable {α : Type}

@[simp] theorem form_symbolic_inj [Symbolic α] {a b : α} :
    (expression a).form = (expression b).form ↔ a = b := by
  constructor
  · intro h
    exact Symbolic.symbol_injective (Form.symbol_inj.mp h)
  · intro h
    rw [h]

theorem map_form_inj [Expressible α]
    (hform : ∀ a b : α, (expression a).form = (expression b).form → a = b) {as bs : List α}
    (h : as.map (fun a => (expression a).form) = bs.map fun b => (expression b).form) : as = bs :=
  List.map_injective_iff.mpr hform h

theorem option_map_form_inj [Expressible α]
    (hform : ∀ a b : α, (expression a).form = (expression b).form → a = b) {a b : Option α}
    (h : a.map (fun a => (expression a).form) = b.map fun b => (expression b).form) : a = b :=
  Option.map_injective hform h

theorem Resource.form_inj {a b : Resource} (h : a.expression.form = b.expression.form) :
    a = b := by
  cases a <;> cases b <;> simp_all [expression]

theorem Product.form_inj {p q : Product} (h : p.expression.form = q.expression.form) : p = q := by
  rcases p with ⟨kind, name, targets⟩
  rcases q with ⟨kind', name', targets'⟩
  cases kind <;> cases kind' <;> simp [expression, keyword, linkage] at h
  · rcases h with ⟨rfl, hlinkage, rfl⟩
    rw [option_map_form_inj (fun _ _ => form_symbolic_inj.mp) hlinkage]
  · rcases h with ⟨rfl, rfl⟩
    rfl
  · rcases h with ⟨rfl, rfl⟩
    rfl

theorem PackageDependency.form_inj {d d' : PackageDependency}
    (h : d.expression.form = d'.expression.form) : d = d' := by
  rcases d with ⟨location, version⟩
  rcases d' with ⟨location', version'⟩
  cases location <;> cases location' <;> cases version <;> cases version' <;>
    simp_all [expression, Location.argument]

theorem PluginUsage.form_inj {p q : PluginUsage} (h : p.expression.form = q.expression.form) :
    p = q := by
  rcases p with ⟨name, package⟩
  rcases q with ⟨name', package'⟩
  simp_all [expression]

theorem PackageProvider.form_inj {p q : PackageProvider}
    (h : p.expression.form = q.expression.form) : p = q := by
  rcases p with ⟨provider, packages⟩
  rcases q with ⟨provider', packages'⟩
  simp only [expression, Expression.form_inlineCall, Form.call.injEq, Expression.forms_cons,
    form_strings] at h
  cases provider <;> cases provider' <;> simp_all [ProviderKind.symbol]

theorem CommandIntent.form_inj {i j : CommandIntent} (h : i.expression.form = j.expression.form) :
    i = j := by
  cases i <;> cases j <;> simp_all [expression]

theorem Permission.form_inj {p q : Permission} (h : p.expression.form = q.expression.form) :
    p = q := by
  cases p
  cases q
  simp_all [expression]

theorem Capability.form_inj {c d : Capability} (h : c.expression.form = d.expression.form) :
    c = d := by
  cases c with
  | buildTool => cases d <;> simp_all [expression, CommandCapability.expression]
  | command details =>
    cases d with
    | buildTool => simp [expression, CommandCapability.expression] at h
    | command details' =>
      rcases details with ⟨intent, permissions⟩
      rcases details' with ⟨intent', permissions'⟩
      simp [expression, CommandCapability.expression] at h
      rw [option_map_form_inj (fun _ _ => CommandIntent.form_inj) h.1,
        map_form_inj (fun _ _ => Permission.form_inj) h.2]

theorem SwiftLanguageVersion.form_inj {v w : SwiftLanguageVersion}
    (h : v.expression.form = w.expression.form) : v = w := by
  cases v <;> cases w <;> simp_all [expression]

end Inert

/-! Nodes with platform entries: their forms determine them once entries with the same form are
merged. -/

/-- Entries with the same form are replaced by the same entry. -/
def Replacement.Merges (r : Replacement) : Prop :=
  ∀ s t : SupportedPlatform, s.expression.form = t.expression.form → r.platform s = r.platform t

section Merging

variable {r : Replacement}

namespace Condition

theorem replaced_eq (hr : r.Merges) {c d : Condition} (h : c.expression.form = d.expression.form) :
    c.replaced r = d.replaced r := by
  rcases c with ⟨platforms, configuration⟩
  rcases d with ⟨platforms', configuration'⟩
  simp [expression] at h
  rcases h with ⟨hplatforms, hconfiguration⟩
  rw [option_map_form_inj (fun _ _ => form_symbolic_inj.mp) hconfiguration, replaced, replaced,
    option_map_eq_of_map_eq (fun _ _ hlist => map_eq_of_map_eq hr (Form.list.inj hlist)) hplatforms]

theorem optional_eq (hr : r.Merges) {c d : Option Condition}
    (h : c.map (fun c => (SwiftManifest.expression c).form) =
      d.map fun d => (SwiftManifest.expression d).form) :
    c.map (·.replaced r) = d.map (·.replaced r) :=
  option_map_eq_of_map_eq (fun _ _ => replaced_eq hr) h

@[simp] theorem lacks_trailing (label : String) (c : Option Condition) :
    Form.Lacks label (forms (trailing c)) := by
  cases c <;> simp [trailing, expression]

theorem trailing_eq (hr : r.Merges) {c d : Option Condition}
    (h : forms (trailing c) = forms (trailing d)) :
    c.map (·.replaced r) = d.map (·.replaced r) := by
  cases c with
  | none => cases d <;> simp_all [trailing]
  | some c =>
    cases d with
    | none => simp [trailing] at h
    | some d => rw [Option.map_some, Option.map_some, replaced_eq hr (List.cons.inj h).1]

end Condition

theorem TargetDependency.replaced_eq (hr : r.Merges) {d e : TargetDependency}
    (h : d.expression.form = e.expression.form) : d.replaced r = e.replaced r := by
  cases d <;> cases e <;> simp [expression] at h
  case product.product =>
    rcases h with ⟨rfl, rfl, hcondition⟩
    rw [replaced, replaced, Condition.optional_eq hr hcondition]
  case target.target =>
    rcases h with ⟨rfl, hcondition⟩
    rw [replaced, replaced, Condition.optional_eq hr hcondition]
  case byName.byName =>
    rcases h with ⟨rfl, hcondition⟩
    rw [replaced, replaced, Condition.optional_eq hr hcondition]
  case literal.literal =>
    obtain rfl := h
    rfl

namespace Setting

theorem replaced_eq {α : Type} {F : α → α} (hr : r.Merges) {s t : Setting α}
    (hoption : s.option = t.option)
    (h : forms (Condition.trailing s.condition) = forms (Condition.trailing t.condition)) :
    s.replaced F r = t.replaced F r := by
  rw [replaced, replaced, hoption, Condition.trailing_eq hr h]

theorem compiler_eq (hr : r.Merges) {s t : CompilerSetting}
    (h : (expression s).form = (expression t).form) :
    s.replaced (·.replaced r) r = t.replaced (·.replaced r) r := by
  rcases s with ⟨option, condition⟩
  rcases t with ⟨option', condition'⟩
  cases option <;> cases option' <;>
    simp [expression, CompilerOption.keyword, CompilerOption.arguments] at h
  case headerSearchPath.headerSearchPath =>
    rcases h with ⟨rfl, hcondition⟩
    exact replaced_eq hr rfl hcondition
  case define.define =>
    rcases h with ⟨rfl, rfl, hcondition⟩
    exact replaced_eq hr rfl hcondition
  case unsafeFlags.unsafeFlags =>
    rcases h with ⟨rfl, hcondition⟩
    exact replaced_eq hr rfl hcondition

theorem linker_eq (hr : r.Merges) {s t : LinkerSetting}
    (h : (expression s).form = (expression t).form) :
    s.replaced (·.replaced r) r = t.replaced (·.replaced r) r := by
  rcases s with ⟨option, condition⟩
  rcases t with ⟨option', condition'⟩
  cases option <;> cases option' <;>
    simp [expression, LinkerOption.keyword, LinkerOption.arguments] at h
  case linkedFramework.linkedFramework =>
    rcases h with ⟨rfl, hcondition⟩
    exact replaced_eq hr rfl hcondition
  case linkedLibrary.linkedLibrary =>
    rcases h with ⟨rfl, hcondition⟩
    exact replaced_eq hr rfl hcondition
  case unsafeFlags.unsafeFlags =>
    rcases h with ⟨rfl, hcondition⟩
    exact replaced_eq hr rfl hcondition

end Setting

namespace Sources

theorem replaced_eq (hr : r.Merges) {s t : Sources} (hexclude : s.exclude = t.exclude)
    (hsources : s.sources = t.sources)
    (hdependencies : s.dependencies.map (fun d => d.expression.form) =
      t.dependencies.map fun d => d.expression.form) : s.replaced r = t.replaced r := by
  rw [replaced, replaced, hexclude, hsources,
    map_eq_of_map_eq (fun _ _ => TargetDependency.replaced_eq hr) hdependencies]

end Sources

namespace SourceModule

theorem replaced_eq (hr : r.Merges) {name path name' path' : Option String} {m m' : SourceModule}
    (headers headers' : Option String)
    (h : forms (m.arguments name path (optionalLiteral "publicHeadersPath" headers)) =
      forms (m'.arguments name' path' (optionalLiteral "publicHeadersPath" headers'))) :
    name = name' ∧ path = path' ∧ headers = headers' ∧ m.replaced r = m'.replaced r := by
  simp [arguments, Sources.dependencyArguments, Sources.fileArguments,
    BuildSettings.resourceArguments, BuildSettings.settingArguments] at h
  obtain ⟨hname, hdependencies, hpath, hexclude, hsources, hresources, hheaders, hc, hcxx, hswift,
    hlinker, hplugins⟩ := h
  refine ⟨hname, hpath, hheaders, ?_⟩
  have hbuild : m.toBuildSettings.replaced r = m'.toBuildSettings.replaced r := by
    rw [BuildSettings.replaced, BuildSettings.replaced,
      map_form_inj (fun _ _ => Resource.form_inj) hresources,
      map_eq_of_map_eq (fun _ _ => Setting.compiler_eq hr) hc,
      map_eq_of_map_eq (fun _ _ => Setting.compiler_eq hr) hcxx,
      map_eq_of_map_eq (fun _ _ => Setting.compiler_eq hr) hswift,
      map_eq_of_map_eq (fun _ _ => Setting.linker_eq hr) hlinker,
      map_form_inj (fun _ _ => PluginUsage.form_inj) hplugins]
  rw [replaced, replaced, Sources.replaced_eq hr hexclude hsources hdependencies, hbuild]

end SourceModule

theorem form_nameOrNil_inj {name name' : Option String}
    (h : (nameOrNil name).form = (nameOrNil name').form) : name = name' := by
  cases name <;> cases name' <;> simp_all [nameOrNil]

namespace TargetBody

theorem replaced_eq (hr : r.Merges) {name path name' path' : Option String}
    {body body' : TargetBody} (hkeyword : body.keyword = body'.keyword)
    (h : forms (body.arguments name path) = forms (body'.arguments name' path')) :
    name = name' ∧ path = path' ∧ body.replaced r = body'.replaced r := by
  cases body <;> cases body' <;> simp [keyword, kind] at hkeyword
  case regular.regular m m' =>
    obtain ⟨hname, hpath, hheaders, hmodule⟩ := SourceModule.replaced_eq hr _ _ h
    refine ⟨hname, hpath, ?_⟩
    rw [replaced, replaced, PublicModule.replaced, PublicModule.replaced, hmodule, hheaders]
  case executable.executable m m' =>
    obtain ⟨hname, hpath, hheaders, hmodule⟩ := SourceModule.replaced_eq hr _ _ h
    refine ⟨hname, hpath, ?_⟩
    rw [replaced, replaced, PublicModule.replaced, PublicModule.replaced, hmodule, hheaders]
  case test.test m m' =>
    obtain ⟨hname, hpath, -, hmodule⟩ := SourceModule.replaced_eq hr none none h
    exact ⟨hname, hpath, congrArg test hmodule⟩
  case plugin.plugin p p' =>
    simp [arguments, Plugin.arguments, Sources.dependencyArguments, Sources.fileArguments] at h
    rcases h with ⟨hname, hcapability, hdependencies, hpath, hexclude, hsources⟩
    refine ⟨hname, hpath, ?_⟩
    rw [replaced, replaced, Plugin.replaced, Plugin.replaced,
      Sources.replaced_eq hr hexclude hsources hdependencies,
      option_map_form_inj (fun _ _ => Capability.form_inj) hcapability]
  case systemLibrary.systemLibrary l l' =>
    simp [arguments, SystemLibrary.arguments] at h
    rcases h with ⟨hname, hpath, hpkgConfig, hproviders⟩
    refine ⟨form_nameOrNil_inj hname, hpath, ?_⟩
    have hlists : l.providers = l'.providers :=
      Option.map_injective
        (fun _ _ hlist => map_form_inj (fun _ _ => PackageProvider.form_inj) (Form.list.inj hlist))
        hproviders
    rw [replaced, replaced, SystemLibrary.replaced, SystemLibrary.replaced, hpkgConfig, hlists]
  case binary.binary b b' =>
    simp [arguments, BinaryArtifact.arguments] at h
    rcases h with ⟨hname, hpath, hurl, hchecksum, hdependencies⟩
    refine ⟨form_nameOrNil_inj hname, hpath, ?_⟩
    rw [replaced, replaced, BinaryArtifact.replaced, BinaryArtifact.replaced, hurl, hchecksum,
      map_eq_of_map_eq (fun _ _ => TargetDependency.replaced_eq hr) hdependencies]

end TargetBody

theorem Declared.replaced_eq (hr : r.Merges) {t u : Target}
    (h : (expression t).form = (expression u).form) : t.replaced r = u.replaced r := by
  obtain ⟨hkeyword, harguments⟩ := Form.call.inj h
  obtain ⟨hname, hpath, hbody⟩ := TargetBody.replaced_eq hr hkeyword harguments
  rw [replaced, replaced, hname, hpath, hbody]

theorem Package.replaced_eq (hr : r.Merges) (constraint : String → String) {p q : Package}
    (h : p.expression.form = q.expression.form) :
    p.replaced r constraint = q.replaced r constraint := by
  simp [expression, arguments] at h
  obtain ⟨hname, hlocalization, hplatforms, hproducts, hdependencies, htargets, hversions, hc,
    hcxx⟩ := h
  rw [replaced, replaced, hname, hlocalization, map_eq_of_map_eq hr hplatforms,
    map_form_inj (fun _ _ => Product.form_inj) hproducts,
    map_form_inj (fun _ _ => PackageDependency.form_inj) hdependencies,
    map_eq_of_map_eq (fun _ _ => Declared.replaced_eq hr) htargets,
    map_form_inj (fun _ _ => SwiftLanguageVersion.form_inj) hversions,
    option_map_form_inj (fun _ _ => form_symbolic_inj.mp) hc,
    option_map_form_inj (fun _ _ => form_symbolic_inj.mp) hcxx]

end Merging

theorem normalizing_merges : normalizing.Merges := fun _ _ => SupportedPlatform.norm_eq_of_form_eq

theorem normalizing_hidden : normalizing.Hidden id id where
  text _ := rfl
  platform s := congrArg (Expression.mapText id id) s.expression_norm

theorem Package.render_norm (p : Package) : render p.norm = render p := by
  have hmap := Package.mapText_replaced normalizing_hidden (fun _ => rfl) p
  have hprint := congrArg Expression.print hmap
  rwa [Expression.print_mapText_id, Expression.print_mapText_id] at hprint

theorem Package.norm_eq_of_render_eq {p q : Package} (hp : p.Plain) (hq : q.Plain)
    (h : render p = render q) : p.norm = q.norm :=
  Package.replaced_eq normalizing_merges id
    (Expression.form_eq_of_print_eq (Package.wellFormed hp) (Package.wellFormed hq) h)

theorem Package.norm_eq_self {p : Package} (h : ∀ s ∈ p.entries, s.norm = s) : p.norm = p :=
  Package.replaced_eq_self rfl h

/-- Packages with one manifest are one package, up to platform versions that are overridden. Where
no version is, the manifest determines the package itself. -/
theorem render_eq_iff_norm_eq {p q : Package} (hp : p.Plain) (hq : q.Plain) :
    (render p = render q ↔ p.norm = q.norm) ∧ (p.document = q.document ↔ p.norm = q.norm) ∧
      ((∀ s ∈ p.entries, s.norm = s) → (∀ s ∈ q.entries, s.norm = s) →
        (render p = render q ↔ p = q)) := by
  have hrender : render p = render q ↔ p.norm = q.norm := by
    constructor
    · exact Package.norm_eq_of_render_eq hp hq
    · intro h
      rw [← p.render_norm, ← q.render_norm, h]
  refine ⟨hrender, ?_, fun hpnorm hqnorm => ?_⟩
  · rw [Package.document, Package.document, List.append_cancel_left_eq]
    exact hrender
  · rw [hrender, Package.norm_eq_self hpnorm, Package.norm_eq_self hqnorm]

/-- A version that is overridden does not show; the version that overrides it does. -/
theorem render_overridden_version :
    let package (versionString : String) (version : Option String) : Package :=
      { name := "A", platforms := [{ platform := .iOS, versionString, version }] }
    render (package "12" (some "v11")) = render (package "12" none) ∧
      render (package "12" none) ≠ render (package "13" none) := by
  intro package
  refine ⟨(render_eq_iff_norm_eq (by decide) (by decide)).1.mpr (by decide), fun h => ?_⟩
  have heq : package "12" none = package "13" none :=
    ((render_eq_iff_norm_eq (by decide) (by decide)).2.2 (by decide) (by decide)).mp h
  exact absurd heq (by decide)

end SwiftManifest
