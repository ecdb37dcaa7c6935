import SwiftManifest.Proofs.Descriptor.Contained
import SwiftManifest.Proofs.Descriptor.Edited
import SwiftManifest.Proofs.Descriptor.RoundTrip

/-! Loading a package makes nothing up: the snapshot of a package that was loaded stands in the
value it was loaded from. -/

namespace SwiftManifest

open Schema (Fields names)

instance {α : Type} [Symbolic α] : FaithfulCodec α where
  contained {place d a} hs h := by
    have hsymbol : ∀ name (b : α), Symbolic.ofSymbol? name = some b → Symbolic.symbol b = name := by
      intro name b hb
      simpa using List.find?_some hb
    have hknown : ∀ name (b : α), Symbolic.ofSymbol? name = some b →
        name ∈ Symbolic.all.map (Symbolic.symbol (α := α)) := by
      intro name b hb
      rw [← hsymbol name b hb]
      exact List.mem_map_of_mem (Symbolic.mem_all b)
    rcases hs.enumerated h hknown with ⟨name, rfl, hname⟩ | ⟨_, _, _, hworded⟩
    · change Contained _ (.text (Symbolic.symbol a)) _
      rw [hsymbol name a hname]
      exact .text name
    · cases hworded

/-- An enumerated value with a content is written as it is read. -/
theorem Contained.worded {known : List String} (name value : String) :
    Contained (.enumerated known) (.object [textMember name value])
      (.object [(name, .text value)]) := by
  refine .object ?_ ?_
  · intro m hm e he
    rw [List.mem_singleton] at hm
    subst hm
    simp only [textMember, List.lookup_cons_self, Option.some.injEq] at he
    subst he
    exact .text value
  · intro m hm hnone
    rw [List.mem_singleton] at hm
    subst hm
    simp [textMember] at hnone

instance : FaithfulCodec Platform where
  contained {place d a} hs h := by
    have hfound : ∀ name a, Platform.ofIdentifier? name = some a →
        a ∈ Platform.known ∧ a.identifier = name := by
      intro name a ha
      exact ⟨List.mem_of_find?_eq_some ha, by simpa using List.find?_some ha⟩
    have hknown : ∀ name a, Platform.ofIdentifier? name = some a →
        name ∈ Platform.known.map Platform.identifier := by
      intro name a ha
      obtain ⟨hmem, hid⟩ := hfound name a ha
      exact hid ▸ List.mem_map_of_mem hmem
    rcases hs.enumerated h hknown with ⟨name, rfl, hname⟩ | ⟨name, value, rfl, hworded⟩
    · obtain ⟨hmem, hid⟩ := hfound name a hname
      have hencode : Platform.encode a = .text a.identifier := by
        cases a with
        | custom name => simp [Platform.known] at hmem
        | _ => rfl
      change Contained _ (Platform.encode a) _
      rw [hencode, hid]
      exact .text name
    · simp only [Platform.ofContent?] at hworded
      split at hworded
      · rename_i hcustom
        cases hworded
        subst hcustom
        exact .worded "custom" value
      · cases hworded

instance : FaithfulCodec SwiftLanguageVersion where
  contained {place d a} hs h := by
    have hknown : ∀ name a, SwiftLanguageVersion.ofName? name = some a →
        name ∈ ["v4", "v4_2", "v5", "v6"] ∧ a.encode = .text name := by
      intro name a ha
      unfold SwiftLanguageVersion.ofName? at ha
      split at ha <;> cases ha <;> exact ⟨by simp, rfl⟩
    rcases hs.enumerated h (fun name b hb => (hknown name b hb).1) with
      ⟨name, rfl, hname⟩ | ⟨name, value, rfl, hworded⟩
    · change Contained _ a.encode _
      rw [(hknown name a hname).2]
      exact .text name
    · simp only [SwiftLanguageVersion.ofContent?] at hworded
      split at hworded
      · rename_i hversion
        cases hworded
        subst hversion
        exact .worded "version" value
      · cases hworded

instance : FaithfulCodec SupportedPlatform where
  contained {place d a} hs h := by
    change SupportedPlatform.decode place d = some a at h
    simp only [SupportedPlatform.decode, Option.bind_eq_bind, Option.bind_eq_some_iff,
      Option.pure_def, Option.some.injEq] at h
    obtain ⟨r, hr, platform, hplatform, versionString, hversionString, version, hversion, rfl⟩ := h
    obtain ⟨rfl, hspelled⟩ := hs.of (by decide) hr
    refine .record (by decide) ?_
    exact ((hspelled.required (by simp) hplatform).append
      (hspelled.optional (by simp) hversionString)).append
      (hspelled.optional (by simp) hversion)

instance : FaithfulCodec Condition where
  contained {place d a} hs h := by
    change Condition.decode place d = some a at h
    simp only [Condition.decode, Option.bind_eq_bind, Option.bind_eq_some_iff, Option.pure_def,
      Option.some.injEq] at h
    obtain ⟨r, hr, platforms, hplatforms, configuration, hconfiguration, rfl⟩ := h
    obtain ⟨rfl, hspelled⟩ := hs.of (by decide) hr
    refine .record (by decide) ?_
    exact (hspelled.optional (by simp) hplatforms).append
      (hspelled.optional (by simp) hconfiguration)

/-- A part of a package that may depend on a condition, with one more field. -/
theorem Spelled.conditional {α β : Type} [Codec α] [Described α] [FaithfulCodec α] {name : String}
    {ns : List (String × Datum)} {make : α → Option Condition → β} {b : β}
    (hs : Spelled (.record [field name .required α, field "condition" .optional Condition])
      (.object ns)) (hname : name ≠ "condition")
    (h : (do
      let r ← Record.of? .held [name, "condition"] (.object ns)
      return make (← r.required name) (← r.optional "condition")) = some b) :
    ∃ a condition, make a condition = b ∧
      AllFound [field name .required α, field "condition" .optional Condition] ns
        ((name, encode a) :: optionalMember "condition" condition) := by
  simp only [Option.bind_eq_bind, Option.pure_def, Option.bind_eq_some_iff, Option.some.injEq] at h
  obtain ⟨r, hr, a, ha, condition, hcondition, rfl⟩ := h
  have hnodup : (names [field name .required α, field "condition" .optional Condition]).Nodup := by
    simpa [names, field] using hname
  obtain ⟨⟨⟩, hspelled⟩ := hs.of hnodup hr
  exact ⟨a, condition, rfl,
    (hspelled.required (by simp) ha).append (hspelled.optional (by simp) hcondition)⟩

instance : FaithfulCodec Resource where
  contained {place d a} hs h := by
    change Resource.decode place d = some a at h
    simp only [Resource.decode, Option.bind_eq_bind, Option.bind_eq_some_iff] at h
    obtain ⟨⟨variant, rest⟩, hread, h⟩ := h
    obtain ⟨fields, ns, hmem, rfl, hs, hwhole⟩ := hs.tagged hread
    simp only [List.mem_cons, Prod.mk.injEq, List.not_mem_nil, or_false] at hmem
    rcases hmem with ⟨rfl, rfl⟩ | ⟨rfl, rfl⟩
    · simp only [Option.pure_def, Option.bind_eq_some_iff, Option.some.injEq] at h
      obtain ⟨r, hr, path, hpath, rfl⟩ := h
      obtain ⟨⟨⟩, hspelled⟩ := hs.of (by decide) hr
      refine hwhole (by decide) _ ?_
      exact hspelled.required (by simp) hpath
    · simp only [Option.pure_def, Option.bind_eq_some_iff, Option.some.injEq] at h
      obtain ⟨r, hr, path, hpath, localization, hlocalization, rfl⟩ := h
      obtain ⟨⟨⟩, hspelled⟩ := hs.of (by decide) hr
      refine hwhole (by decide) _ ?_
      exact (hspelled.required (by simp) hpath).append (hspelled.optional (by simp) hlocalization)

instance : FaithfulCodec CompilerSetting where
  contained {place d a} hs h := by
    change Setting.decodeCompiler place d = some a at h
    simp only [Setting.decodeCompiler, Option.bind_eq_bind, Option.bind_eq_some_iff] at h
    obtain ⟨⟨variant, rest⟩, hread, h⟩ := h
    obtain ⟨fields, ns, hmem, rfl, hs, hwhole⟩ := hs.tagged hread
    simp only [List.mem_cons, Prod.mk.injEq, List.not_mem_nil, or_false] at hmem
    rcases hmem with ⟨rfl, rfl⟩ | ⟨rfl, rfl⟩ | ⟨rfl, rfl⟩
    · obtain ⟨path, condition, rfl, hfound⟩ := hs.conditional (by decide) h
      exact hwhole (by decide) _ hfound
    · simp only [Option.pure_def, Option.bind_eq_some_iff, Option.some.injEq] at h
      obtain ⟨r, hr, name, hname, value, hvalue, condition, hcondition, rfl⟩ := h
      obtain ⟨⟨⟩, hspelled⟩ := hs.of (by decide) hr
      refine hwhole (by decide) _ ?_
      exact (hspelled.required (by simp) hname).append
        ((hspelled.optional (by simp) hvalue).append
        (hspelled.optional (by simp) hcondition))
    · obtain ⟨flags, condition, rfl, hfound⟩ := hs.conditional (by decide) h
      exact hwhole (by decide) _ hfound

instance : FaithfulCodec LinkerSetting where
  contained {place d a} hs h := by
    change Setting.decodeLinker place d = some a at h
    simp only [Setting.decodeLinker, Option.bind_eq_bind, Option.bind_eq_some_iff] at h
    obtain ⟨⟨variant, rest⟩, hread, h⟩ := h
    obtain ⟨fields, ns, hmem, rfl, hs, hwhole⟩ := hs.tagged hread
    simp only [List.mem_cons, Prod.mk.injEq, List.not_mem_nil, or_false] at hmem
    rcases hmem with ⟨rfl, rfl⟩ | ⟨rfl, rfl⟩ | ⟨rfl, rfl⟩
    · obtain ⟨framework, condition, rfl, hfound⟩ := hs.conditional (by decide) h
      exact hwhole (by decide) _ hfound
    · obtain ⟨library, condition, rfl, hfound⟩ := hs.conditional (by decide) h
      exact hwhole (by decide) _ hfound
    · obtain ⟨flags, condition, rfl, hfound⟩ := hs.conditional (by decide) h
      exact hwhole (by decide) _ hfound

instance : FaithfulCodec PluginUsage where
  contained {place d a} hs h := by
    change PluginUsage.decode place d = some a at h
    simp only [PluginUsage.decode, Option.bind_eq_bind, Option.bind_eq_some_iff, Option.pure_def,
      Option.some.injEq] at h
    obtain ⟨r, hr, name, hname, package, hpackage, rfl⟩ := h
    obtain ⟨rfl, hspelled⟩ := hs.of (by decide) hr
    refine .record (by decide) ?_
    exact (hspelled.required (by simp) hname).append (hspelled.optional (by simp) hpackage)

instance : FaithfulCodec TargetDependency where
  contained {place d a} hs h := by
    change TargetDependency.decode place d = some a at h
    simp only [TargetDependency.decode, Option.bind_eq_bind, Option.bind_eq_some_iff] at h
    obtain ⟨⟨variant, rest⟩, hread, h⟩ := h
    obtain ⟨fields, ns, hmem, rfl, hs, hwhole⟩ := hs.tagged hread
    simp only [List.mem_cons, Prod.mk.injEq, List.not_mem_nil, or_false] at hmem
    rcases hmem with ⟨rfl, rfl⟩ | ⟨rfl, rfl⟩ | ⟨rfl, rfl⟩ | ⟨rfl, rfl⟩
    · simp only [Option.pure_def, Option.bind_eq_some_iff, Option.some.injEq] at h
      obtain ⟨r, hr, name, hname, package, hpackage, condition, hcondition, rfl⟩ := h
      obtain ⟨⟨⟩, hspelled⟩ := hs.of (by decide) hr
      refine hwhole (by decide) _ ?_
      exact (hspelled.required (by simp) hname).append
        ((hspelled.optional (by simp) hpackage).append
        (hspelled.optional (by simp) hcondition))
    · obtain ⟨name, condition, rfl, hfound⟩ := hs.conditional (by decide) h
      exact hwhole (by decide) _ hfound
    · obtain ⟨name, condition, rfl, hfound⟩ := hs.conditional (by decide) h
      exact hwhole (by decide) _ hfound
    · simp only [Option.pure_def, Option.bind_eq_some_iff, Option.some.injEq] at h
      obtain ⟨r, hr, name, hname, rfl⟩ := h
      obtain ⟨⟨⟩, hspelled⟩ := hs.of (by decide) hr
      refine hwhole (by decide) _ ?_
      exact hspelled.required (by simp) hname

instance : FaithfulCodec PackageProvider where
  contained {place d a} hs h := by
    change PackageProvider.decode place d = some a at h
    simp only [PackageProvider.decode, Option.bind_eq_bind, Option.bind_eq_some_iff,
      Option.pure_def, Option.some.injEq] at h
    obtain ⟨r, hr, provider, hprovider, packages, hpackages, rfl⟩ := h
    obtain ⟨rfl, hspelled⟩ := hs.of (by decide) hr
    refine .record (by decide) ?_
    exact (hspelled.required (by simp) hprovider).append (hspelled.keptList (by simp) hpackages)

instance : FaithfulCodec CommandIntent where
  contained {place d a} hs h := by
    change CommandIntent.decode place d = some a at h
    simp only [CommandIntent.decode, Option.bind_eq_bind, Option.bind_eq_some_iff] at h
    obtain ⟨⟨variant, rest⟩, hread, h⟩ := h
    obtain ⟨fields, ns, hmem, rfl, hs, hwhole⟩ := hs.tagged hread
    simp only [List.mem_cons, Prod.mk.injEq, List.not_mem_nil, or_false] at hmem
    rcases hmem with ⟨rfl, rfl⟩ | ⟨rfl, rfl⟩ | ⟨rfl, rfl⟩
    · simp only [Option.map_eq_some_iff] at h
      obtain ⟨_, _, rfl⟩ := h
      exact hwhole (by decide) [] (List.forall_mem_nil _)
    · simp only [Option.map_eq_some_iff] at h
      obtain ⟨_, _, rfl⟩ := h
      exact hwhole (by decide) [] (List.forall_mem_nil _)
    · simp only [Option.pure_def, Option.bind_eq_some_iff, Option.some.injEq] at h
      obtain ⟨r, hr, verb, hverb, description, hdescription, rfl⟩ := h
      obtain ⟨⟨⟩, hspelled⟩ := hs.of (by decide) hr
      refine hwhole (by decide) _ ?_
      exact (hspelled.required (by simp) hverb).append (hspelled.required (by simp) hdescription)

instance : FaithfulCodec Permission where
  contained {place d a} hs h := by
    change Permission.decode place d = some a at h
    simp only [Permission.decode, Option.bind_eq_bind, Option.bind_eq_some_iff] at h
    obtain ⟨⟨variant, rest⟩, hread, h⟩ := h
    obtain ⟨fields, ns, hmem, rfl, hs, hwhole⟩ := hs.tagged hread
    simp only [List.mem_cons, Prod.mk.injEq, List.not_mem_nil, or_false] at hmem
    obtain ⟨rfl, rfl⟩ := hmem
    simp only [Option.pure_def, Option.bind_eq_some_iff, Option.some.injEq] at h
    obtain ⟨r, hr, reason, hreason, rfl⟩ := h
    obtain ⟨⟨⟩, hspelled⟩ := hs.of (by decide) hr
    refine hwhole (by decide) _ ?_
    exact hspelled.required (by simp) hreason

theorem CommandCapability.allFound {place : Place} {d : Datum} {c : CommandCapability}
    (hs : Spelled (.record described) d) (h : decode place d = some c) :
    ∃ ns, d = .object ns ∧ AllFound described ns c.members := by
  simp only [decode, Option.bind_eq_bind, Option.bind_eq_some_iff, Option.pure_def,
    Option.some.injEq] at h
  obtain ⟨r, hr, intent, hintent, permissions, hpermissions, rfl⟩ := h
  obtain ⟨rfl, hspelled⟩ := hs.of (by decide) hr
  exact ⟨r.members, rfl, (hspelled.optional (by simp [described]) hintent).append
    (hspelled.keptList (by simp [described]) hpermissions)⟩

instance : FaithfulCodec Capability where
  contained {place d a} hs h := by
    change Capability.decode place d = some a at h
    simp only [Capability.decode, Option.bind_eq_bind, Option.bind_eq_some_iff] at h
    obtain ⟨⟨variant, rest⟩, hread, h⟩ := h
    obtain ⟨fields, ns, hmem, rfl, hs, hwhole⟩ := hs.tagged hread
    simp only [List.mem_cons, Prod.mk.injEq, List.not_mem_nil, or_false] at hmem
    rcases hmem with ⟨rfl, rfl⟩ | ⟨rfl, rfl⟩
    · simp only [Option.map_eq_some_iff] at h
      obtain ⟨_, _, rfl⟩ := h
      exact hwhole (by decide) [] (List.forall_mem_nil _)
    · simp only [Option.map_eq_some_iff] at h
      obtain ⟨c, hc, rfl⟩ := h
      obtain ⟨_, ⟨⟩, hfound⟩ := CommandCapability.allFound hs hc
      exact hwhole (by decide) c.members hfound

instance : FaithfulCodec Product where
  contained {place d a} hs h := by
    change Product.decode place d = some a at h
    simp only [Product.decode, Option.bind_eq_bind, Option.bind_eq_some_iff] at h
    obtain ⟨⟨variant, rest⟩, hread, h⟩ := h
    obtain ⟨fields, ns, hmem, rfl, hs, hwhole⟩ := hs.tagged hread
    simp only [List.mem_cons, Prod.mk.injEq, List.not_mem_nil, or_false] at hmem
    rcases hmem with ⟨rfl, rfl⟩ | ⟨rfl, rfl⟩ | ⟨rfl, rfl⟩
    · simp only [Option.pure_def, Option.bind_eq_some_iff, Option.some.injEq] at h
      obtain ⟨r, hr, linkage, hlinkage, name, hname, targets, htargets, rfl⟩ := h
      obtain ⟨⟨⟩, hspelled⟩ := hs.of (by decide) hr
      refine hwhole (by decide) _ ?_
      exact (hspelled.required (by simp) hname).append
        ((hspelled.optional (by simp) hlinkage).append
        (hspelled.keptList (by simp) htargets))
    · simp only [Option.pure_def, Option.bind_eq_some_iff, Option.some.injEq] at h
      obtain ⟨r, hr, name, hname, targets, htargets, rfl⟩ := h
      obtain ⟨⟨⟩, hspelled⟩ := hs.of (by decide) hr
      refine hwhole (by decide) _ ?_
      exact (hspelled.required (by simp) hname).append (hspelled.keptList (by simp) htargets)
    · simp only [Option.pure_def, Option.bind_eq_some_iff, Option.some.injEq] at h
      obtain ⟨r, hr, name, hname, targets, htargets, rfl⟩ := h
      obtain ⟨⟨⟩, hspelled⟩ := hs.of (by decide) hr
      refine hwhole (by decide) _ ?_
      exact (hspelled.required (by simp) hname).append (hspelled.keptList (by simp) htargets)

section Layers

variable {r : Record}

theorem Sources.allFound (hs : r.Spelled described) {s : Sources} (h : ofRecord? r = some s) :
    AllFound described r.members s.members := by
  simp only [ofRecord?, Option.bind_eq_bind, Option.bind_eq_some_iff, Option.pure_def,
    Option.some.injEq] at h
  obtain ⟨exclude, hexclude, sources, hsources, dependencies, hdependencies, rfl⟩ := h
  exact ((hs.list (by simp [described]) hexclude).append
    (hs.list (by simp [described]) hsources)).append
    (hs.list (by simp [described]) hdependencies)

theorem BuildSettings.allFound (hs : r.Spelled described) {b : BuildSettings}
    (h : ofRecord? r = some b) : AllFound described r.members b.members := by
  simp only [ofRecord?, Option.bind_eq_bind, Option.bind_eq_some_iff, Option.pure_def,
    Option.some.injEq] at h
  obtain ⟨resources, hresources, cSettings, hcSettings, cxxSettings, hcxxSettings, swiftSettings,
    hswiftSettings, linkerSettings, hlinkerSettings, plugins, hplugins, rfl⟩ := h
  exact (((((hs.list (by simp [described]) hresources).append
    (hs.list (by simp [described]) hcSettings)).append
    (hs.list (by simp [described]) hcxxSettings)).append
    (hs.list (by simp [described]) hswiftSettings)).append
    (hs.list (by simp [described]) hlinkerSettings)).append
    (hs.list (by simp [described]) hplugins)

theorem SourceModule.allFound (hs : r.Spelled described) {m : SourceModule}
    (h : ofRecord? r = some m) : AllFound described r.members m.members := by
  simp only [ofRecord?, Option.bind_eq_bind, Option.bind_eq_some_iff, Option.pure_def,
    Option.some.injEq] at h
  obtain ⟨sources, hsources, settings, hsettings, rfl⟩ := h
  have hleft : Sources.described ⊆ described := List.subset_append_left _ _
  have hright : BuildSettings.described ⊆ described := List.subset_append_right _ _
  exact ((Sources.allFound (hs.mono hleft) hsources).mono hleft).append
    ((BuildSettings.allFound (hs.mono hright) hsettings).mono hright)

theorem PublicModule.allFound (hs : r.Spelled described) {m : PublicModule}
    (h : ofRecord? r = some m) : AllFound described r.members m.members := by
  simp only [ofRecord?, Option.bind_eq_bind, Option.bind_eq_some_iff, Option.pure_def,
    Option.some.injEq] at h
  obtain ⟨sources, hsources, headers, hheaders, rfl⟩ := h
  have hleft : SourceModule.described ⊆ described := List.subset_append_left _ _
  exact ((SourceModule.allFound (hs.mono hleft) hsources).mono hleft).append
    (hs.optional (by simp [described]) hheaders)

theorem Plugin.allFound (hs : r.Spelled described) {p : Plugin} (h : ofRecord? r = some p) :
    AllFound described r.members p.members := by
  simp only [ofRecord?, Option.bind_eq_bind, Option.bind_eq_some_iff, Option.pure_def,
    Option.some.injEq] at h
  obtain ⟨sources, hsources, capability, hcapability, rfl⟩ := h
  have hright : Sources.described ⊆ described := List.subset_cons_self _ _
  exact (hs.optional (by simp [described]) hcapability).append
    ((Sources.allFound (hs.mono hright) hsources).mono hright)

theorem SystemLibrary.allFound (hs : r.Spelled described) {l : SystemLibrary}
    (h : ofRecord? r = some l) : AllFound described r.members l.members := by
  simp only [ofRecord?, Option.bind_eq_bind, Option.bind_eq_some_iff, Option.pure_def,
    Option.some.injEq] at h
  obtain ⟨pkgConfig, hpkgConfig, providers, hproviders, rfl⟩ := h
  exact (hs.optional (by simp [described]) hpkgConfig).append
    (hs.optional (by simp [described]) hproviders)

theorem BinaryArtifact.allFound (hs : r.Spelled described) {b : BinaryArtifact}
    (h : ofRecord? r = some b) : AllFound described r.members b.members := by
  simp only [ofRecord?, Option.bind_eq_bind, Option.bind_eq_some_iff, Option.pure_def,
    Option.some.injEq] at h
  obtain ⟨url, hurl, checksum, hchecksum, dependencies, hdependencies, rfl⟩ := h
  exact ((hs.optional (by simp [described]) hurl).append
    (hs.optional (by simp [described]) hchecksum)).append
    (hs.list (by simp [described]) hdependencies)

theorem TargetBody.allFound {kind : String} (hkind : kind ∈ variants)
    (hs : r.Spelled (described kind)) {b : TargetBody} (h : ofRecord? kind r = some b) :
    b.kind = kind ∧ AllFound (described kind) r.members b.members := by
  simp only [variants, List.mem_cons, List.not_mem_nil, or_false] at hkind
  rcases hkind with rfl | rfl | rfl | rfl | rfl | rfl <;>
    obtain ⟨content, hcontent, rfl⟩ := Option.map_eq_some_iff.mp h
  · exact ⟨rfl, PublicModule.allFound hs hcontent⟩
  · exact ⟨rfl, PublicModule.allFound hs hcontent⟩
  · exact ⟨rfl, SourceModule.allFound hs hcontent⟩
  · exact ⟨rfl, Plugin.allFound hs hcontent⟩
  · exact ⟨rfl, SystemLibrary.allFound hs hcontent⟩
  · exact ⟨rfl, BinaryArtifact.allFound hs hcontent⟩

end Layers

instance : FaithfulCodec Target where
  contained {place d a} hs h := by
    change Declared.decodeTarget place d = some a at h
    simp only [Declared.decodeTarget, Option.bind_eq_bind, Option.bind_eq_some_iff,
      Option.pure_def, Option.some.injEq] at h
    obtain ⟨⟨_, rest⟩, hread, r, hr, name, hname, path, hpath, body, hbody, rfl⟩ := h
    obtain ⟨fields, ns, hmem, rfl, hs, hwhole⟩ := hs.tagged hread
    obtain ⟨kind, hkind, hfields⟩ := List.mem_map.mp hmem
    obtain ⟨rfl, rfl⟩ := Prod.mk.inj hfields
    obtain ⟨hnames, hnodup⟩ := Declared.names_described kind hkind
    obtain ⟨⟨⟩, hspelled⟩ := hs.ofObject hnodup.of_cons hr
    have htail : TargetBody.described kind ⊆ Declared.described kind := by simp [Declared.described]
    obtain ⟨rfl, hfound⟩ := TargetBody.allFound hkind (hspelled.mono htail) hbody
    exact hwhole hnodup _ (((hspelled.optional (by simp [Declared.described]) hname).append
      (hspelled.optional (by simp [Declared.described]) hpath)).append (hfound.mono htail))

theorem find?_of_imp {α : Type} {p q : α → Bool} {l : List α} {a : α} (h : l.find? p = some a)
    (hq : q a = true) (himp : ∀ b, q b = true → p b = true) : l.find? q = some a := by
  rw [List.find?_eq_some_iff_append] at h ⊢
  obtain ⟨-, before, behind, rfl, hbefore⟩ := h
  refine ⟨hq, before, behind, rfl, ?_⟩
  intro b hb
  have hnot := hbefore b hb
  cases hqb : q b with
  | false => rfl
  | true => simp [himp b hqb] at hnot

/-- A location is given by the member of its name. -/
theorem Location.lookup_member {ms : List (String × Datum)} {location : Location}
    (h : ofMembers? ms = some location) :
    ms.lookup location.member.1 = some location.member.2 := by
  unfold ofMembers? at h
  rw [lookup_eq_find?]
  split at h
  · rename_i value hfind
    cases h
    rw [member, textMember, find?_of_imp hfind (by simp) (by simp +contextual), Option.map_some]
  · rename_i value hfind
    cases h
    rw [member, textMember, find?_of_imp hfind (by simp) (by simp +contextual), Option.map_some]
  · cases h

instance : FaithfulCodec PackageDependency where
  contained {place d a} hs h := by
    change PackageDependency.decode place d = some a at h
    cases hs with
    | array hrecord _ => cases hrecord
    | @object _ ms hplain hmembers =>
      simp only [PackageDependency.decode_object, PackageDependency.locationOf?,
        Option.bind_eq_bind, Option.bind_eq_some_iff, Option.pure_def, Option.some.injEq] at h
      obtain ⟨r, hr, version, hversion, location, ⟨_, -, hlocation⟩, rfl⟩ := h
      obtain ⟨⟨⟩, hspelled⟩ := Spelled.ofObject (.object hplain hmembers) (by decide) hr
      have hlookup := Location.lookup_member hlocation
      refine .record (by decide) (.append (.single ?_) (hspelled.optional (by simp) hversion))
      cases location with
      | path value => exact .held List.mem_cons_self hlookup (.text value)
      | url value =>
        exact .held (List.mem_cons_of_mem _ List.mem_cons_self) hlookup (.text value)
    | _ => cases h

instance : FaithfulCodec Package where
  contained {place d a} hs h := by
    change Package.decode place d = some a at h
    simp only [Package.decode, Option.bind_eq_bind, Option.bind_eq_some_iff, Option.pure_def,
      Option.some.injEq] at h
    obtain ⟨r, hr, name, hname, localization, hlocalization, platforms, hplatforms, products,
      hproducts, dependencies, hdependencies, targets, htargets, versions, hversions, c, hc, cxx,
      hcxx, rfl⟩ := h
    obtain ⟨rfl, hspelled⟩ := hs.of (by decide) hr
    refine .record (by decide) ?_
    exact ((((((((hspelled.required (by simp [Package.described]) hname).append
      (hspelled.optional (by simp [Package.described]) hlocalization)).append
      (hspelled.list (by simp [Package.described]) hplatforms)).append
      (hspelled.list (by simp [Package.described]) hproducts)).append
      (hspelled.list (by simp [Package.described]) hdependencies)).append
      (hspelled.list (by simp [Package.described]) htargets)).append
      (hspelled.list (by simp [Package.described]) hversions)).append
      (hspelled.optional (by simp [Package.described]) hc)).append
      (hspelled.optional (by simp [Package.described]) hcxx)

/-- A package that loads from a spelled out value has a snapshot that stands in this value. -/
theorem Package.snapshot_contained {content : String} {d : Datum} {p : Package}
    (hread : Json.read content.toList = some d) (hspelled : Spelled (schema Package) d)
    (hparse : DescriptorFormat.json.parse content = .ok p) :
    ∃ tree, Json.read p.snapshot = some tree ∧ Contained (schema Package) tree d := by
  have hdecode : decode .json d = some p := (DescriptorFormat.json.parse_eq_ok_iff hread).mp hparse
  exact ⟨p.encode, p.read_snapshot, FaithfulCodec.contained hspelled hdecode⟩

/-- A product without targets, with a null, in a package with a member that is not known. -/
theorem Package.snapshot_contained_product :
    ∃ tree, Json.read (Package.snapshot { name := "P", products := [
        { kind := .library none, name := "L", targets := [] }] }) = some tree ∧
      Contained (schema Package) tree (.object [("note", .bool true), ("products", .array [
        .object [("name", .text "L"), ("type", .null), ("kind", .text "library")]]),
        ("name", .text "P")]) := by
  have hread : Json.read ("\x7b\"note\":true,\"products\":[\x7b\"name\":\"L\",\"type\":null," ++
      "\"kind\":\"library\"\x7d],\"name\":\"P\"\x7d").toList = some (.object [("note", .bool true),
        ("products", .array [.object [("name", .text "L"), ("type", .null),
          ("kind", .text "library")]]), ("name", .text "P")]) := by
    simp only [String.reduceAppend, String.reduceToList]
    rfl
  have hproduct : Spelled (schema Product) (.object [("name", .text "L"), ("type", .null),
      ("kind", .text "library")]) := by
    refine .object (by simp) ?_
    simp only [List.forall_mem_cons]
    exact ⟨.text "L", .null, .text "library", List.forall_mem_nil _⟩
  refine snapshot_contained hread (.object (by simp) ?_)
    ((DescriptorFormat.json.parse_eq_ok_iff hread).mpr rfl)
  simp only [List.forall_mem_cons]
  refine ⟨.bool true, .array rfl ?_, .text "P", List.forall_mem_nil _⟩
  intro i hi
  obtain rfl : i = 0 := by simpa using hi
  exact hproduct

end SwiftManifest
