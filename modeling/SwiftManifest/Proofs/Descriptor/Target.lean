import SwiftManifest.Proofs.Descriptor.Setting
import SwiftManifest.Proofs.Descriptor.Dependency
import SwiftManifest.Descriptor.Target

/-! Providers, capabilities and targets are read back. A target is put together from layers that
share one object; no two layers of a kind have a field in common. -/

namespace SwiftManifest

open Record (required_eq optional_eq list_eq)

namespace PackageProvider

theorem fits (p : PackageProvider) : Fits ["provider", "packages"] 1 p.members :=
  (Fits.member "provider" p.provider (by decide)).append (.member "packages" p.packages (by decide))

instance : LawfulCodec PackageProvider where
  depth := 2
  textual p := p.fits.object
  decode_encode place p := by
    change PackageProvider.decode place (.object p.members) = some p
    rw [PackageProvider.decode, p.fits.of (by decide)]
    simp [members, required_eq, list_eq]

end PackageProvider

namespace CommandIntent

theorem fits_custom (verb description : String) :
    Fits ["verb", "description"] 0 [textMember "verb" verb, textMember "description" description] :=
  (Fits.text "verb" verb).append (.text "description" description)

instance : LawfulCodec CommandIntent where
  depth := 1
  textual i := by
    cases i with
    | custom verb description => exact (fits_custom verb description).variant "kind" "custom"
    | documentationGeneration => exact Fits.nil.variant "kind" "documentationGeneration"
    | sourceCodeFormatting => exact Fits.nil.variant "kind" "sourceCodeFormatting"
  decode_encode place i := by
    change decode place i.encode = some i
    cases i with
    | custom verb description =>
      have hfits := fits_custom verb description
      simp [encode, decode, variants, hfits.tagged, hfits.of, required_eq]
    | documentationGeneration =>
      simp [encode, decode, variants, (Fits.nil (n := 0)).tagged, bare?]
    | sourceCodeFormatting =>
      simp [encode, decode, variants, (Fits.nil (n := 0)).tagged, bare?]

end CommandIntent

namespace Permission

theorem fits (reason : String) : Fits ["reason"] 0 [textMember "reason" reason] :=
  .text "reason" reason

instance : LawfulCodec Permission where
  depth := 1
  textual p := by
    cases p with
    | writeToPackageDirectory reason =>
      exact (fits reason).variant "kind" "writeToPackageDirectory"
  decode_encode place p := by
    change decode place p.encode = some p
    cases p with
    | writeToPackageDirectory reason =>
      have hfits := fits reason
      simp [encode, decode, variants, hfits.tagged, hfits.of, required_eq]

end Permission

namespace CommandCapability

theorem fits (c : CommandCapability) : Fits ["intent", "permissions"] 2 c.members :=
  (Fits.optional "intent" c.intent (by decide)).append
    (.member "permissions" c.permissions (by decide))

theorem decode_members (place : Place) (c : CommandCapability) :
    decode place (.object c.members) = some c := by
  rw [decode, c.fits.of (by decide)]
  simp [members, optional_eq, list_eq, List.lookup_append]

instance : LawfulCodec CommandCapability where
  depth := 3
  textual c := c.fits.object
  decode_encode := decode_members

end CommandCapability

namespace Capability

instance : LawfulCodec Capability where
  depth := 3
  textual c := by
    cases c with
    | buildTool => exact Fits.nil.variant "kind" "buildTool"
    | command c => exact c.fits.variant "kind" "command"
  decode_encode place c := by
    change decode place c.encode = some c
    cases c with
    | buildTool => simp [encode, decode, variants, (Fits.nil (n := 0)).tagged, bare?]
    | command c =>
      simp [encode, decode, variants, c.fits.tagged, CommandCapability.decode_members]

end Capability

namespace Sources

theorem fits (s : Sources) : Fits fields 6 s.members :=
  ((Fits.list "exclude" s.exclude (by decide)).append
    (.list "sources" s.sources (by decide))).append
    (.list "dependencies" s.dependencies (by decide))

theorem ofRecord?_of_covers {r : Record} {s : Sources} (h : r.Covers fields s.members) :
    ofRecord? r = some s := by
  have hexclude := h "exclude" (by decide)
  have hsources := h "sources" (by decide)
  have hdependencies := h "dependencies" (by decide)
  simp [ofRecord?, list_eq, hexclude, hsources, hdependencies, members, List.lookup_append]

end Sources

namespace BuildSettings

theorem fits (b : BuildSettings) : Fits fields 6 b.members :=
  (((((Fits.list "resources" b.resources (by decide)).append
    (.list "cSettings" b.cSettings (by decide))).append
    (.list "cxxSettings" b.cxxSettings (by decide))).append
    (.list "swiftSettings" b.swiftSettings (by decide))).append
    (.list "linkerSettings" b.linkerSettings (by decide))).append
    (.list "plugins" b.plugins (by decide))

theorem ofRecord?_of_covers {r : Record} {b : BuildSettings} (h : r.Covers fields b.members) :
    ofRecord? r = some b := by
  have hresources := h "resources" (by decide)
  have hc := h "cSettings" (by decide)
  have hcxx := h "cxxSettings" (by decide)
  have hswift := h "swiftSettings" (by decide)
  have hlinker := h "linkerSettings" (by decide)
  have hplugins := h "plugins" (by decide)
  simp [ofRecord?, list_eq, hresources, hc, hcxx, hswift, hlinker, hplugins, members,
    List.lookup_append]

end BuildSettings

namespace SourceModule

theorem fits (m : SourceModule) : Fits fields 6 m.members :=
  m.toSources.fits.append m.toBuildSettings.fits

theorem ofRecord?_of_covers {r : Record} {m : SourceModule} (h : r.Covers fields m.members) :
    ofRecord? r = some m := by
  obtain ⟨hsources, hsettings⟩ := h.split m.toSources.fits m.toBuildSettings.fits (by decide)
  simp [ofRecord?, Sources.ofRecord?_of_covers hsources,
    BuildSettings.ofRecord?_of_covers hsettings]

end SourceModule

namespace PublicModule

theorem fits_headers (m : PublicModule) :
    Fits ["publicHeadersPath"] 6 (optionalMember "publicHeadersPath" m.publicHeadersPath) :=
  .optional "publicHeadersPath" m.publicHeadersPath (by decide)

theorem fits (m : PublicModule) : Fits fields 6 m.members :=
  m.toSourceModule.fits.append m.fits_headers

theorem ofRecord?_of_covers {r : Record} {m : PublicModule} (h : r.Covers fields m.members) :
    ofRecord? r = some m := by
  obtain ⟨hmodule, hheaders⟩ := h.split m.toSourceModule.fits m.fits_headers (by decide)
  have hpath := hheaders "publicHeadersPath" (by decide)
  simp [ofRecord?, SourceModule.ofRecord?_of_covers hmodule, optional_eq, hpath]

end PublicModule

namespace Plugin

theorem fits_capability (p : Plugin) :
    Fits ["capability"] 6 (optionalMember "capability" p.capability) :=
  .optional "capability" p.capability (by decide)

theorem fits (p : Plugin) : Fits fields 6 p.members :=
  p.fits_capability.append p.toSources.fits

theorem ofRecord?_of_covers {r : Record} {p : Plugin} (h : r.Covers fields p.members) :
    ofRecord? r = some p := by
  have hsplit : r.Covers (["capability"] ++ Sources.fields)
      (optionalMember "capability" p.capability ++ p.toSources.members) := h
  obtain ⟨hown, hsources⟩ := hsplit.split p.fits_capability p.toSources.fits (by decide)
  have hcapability := hown "capability" (by decide)
  simp [ofRecord?, Sources.ofRecord?_of_covers hsources, optional_eq, hcapability]

end Plugin

namespace SystemLibrary

theorem fits (l : SystemLibrary) : Fits fields 6 l.members :=
  (Fits.optional "pkgConfig" l.pkgConfig (by decide)).append
    (.optional "providers" l.providers (by decide))

theorem ofRecord?_of_covers {r : Record} {l : SystemLibrary} (h : r.Covers fields l.members) :
    ofRecord? r = some l := by
  have hconfig := h "pkgConfig" (by decide)
  have hproviders := h "providers" (by decide)
  simp [ofRecord?, optional_eq, hconfig, hproviders, members, List.lookup_append]

end SystemLibrary

namespace BinaryArtifact

theorem fits (b : BinaryArtifact) : Fits fields 6 b.members :=
  ((Fits.optional "url" b.url (by decide)).append
    (.optional "checksum" b.checksum (by decide))).append
    (.list "dependencies" b.dependencies (by decide))

theorem ofRecord?_of_covers {r : Record} {b : BinaryArtifact} (h : r.Covers fields b.members) :
    ofRecord? r = some b := by
  have hurl := h "url" (by decide)
  have hchecksum := h "checksum" (by decide)
  have hdependencies := h "dependencies" (by decide)
  simp [ofRecord?, optional_eq, list_eq, hurl, hchecksum, hdependencies, members,
    List.lookup_append]

end BinaryArtifact

namespace TargetBody

theorem fits (b : TargetBody) : Fits (fieldsOf b.kind) 6 b.members := by
  cases b with
  | regular m => exact m.fits
  | executable m => exact m.fits
  | test m => exact m.fits
  | plugin p => exact p.fits
  | systemLibrary l => exact l.fits
  | binary b => exact b.fits

theorem ofRecord?_of_covers {r : Record} {b : TargetBody}
    (h : r.Covers (fieldsOf b.kind) b.members) : ofRecord? b.kind r = some b := by
  cases b with
  | regular m => simp [ofRecord?, kind, PublicModule.ofRecord?_of_covers h]
  | executable m => simp [ofRecord?, kind, PublicModule.ofRecord?_of_covers h]
  | test m => simp [ofRecord?, kind, SourceModule.ofRecord?_of_covers h]
  | plugin p => simp [ofRecord?, kind, Plugin.ofRecord?_of_covers h]
  | systemLibrary l => simp [ofRecord?, kind, SystemLibrary.ofRecord?_of_covers h]
  | binary b => simp [ofRecord?, kind, BinaryArtifact.ofRecord?_of_covers h]

theorem kind_mem_variants (b : TargetBody) : b.kind ∈ variants := by
  cases b <;> simp [kind, variants]

/-- The fields of a kind differ from each other, from the shared ones and from the tag. -/
theorem nodup_fields : ∀ kind ∈ variants, ("kind" :: "name" :: "path" :: fieldsOf kind).Nodup := by
  decide

end TargetBody

namespace Declared

def sharedMembers (t : Target) : List (String × Datum) :=
  optionalMember "name" t.name ++ optionalMember "path" t.path

theorem fits_shared (t : Target) : Fits ["name", "path"] 6 (sharedMembers t) :=
  (Fits.optional "name" t.name (by decide)).append (.optional "path" t.path (by decide))

instance : LawfulCodec Target where
  depth := 7
  textual t := (t.fits_shared.append t.body.fits).variant "kind" t.body.kind
  decode_encode place t := by
    change decodeTarget place
      (.object (textMember "kind" t.body.kind :: (t.sharedMembers ++ t.body.members))) = some t
    have hfits := t.fits_shared.append t.body.fits
    obtain ⟨htag, hfields⟩ :=
      List.nodup_cons.mp (TargetBody.nodup_fields _ t.body.kind_mem_variants)
    have hcovers : Record.Covers ⟨.held, t.sharedMembers ++ t.body.members⟩
        (["name", "path"] ++ TargetBody.fieldsOf t.body.kind)
        (t.sharedMembers ++ t.body.members) := fun _ _ => rfl
    obtain ⟨hshared, hbody⟩ := hcovers.split t.fits_shared t.body.fits
      (fun f hf => List.disjoint_of_nodup_append hfields hf)
    have hname := hshared "name" (by decide)
    have hpath := hshared "path" (by decide)
    rw [decodeTarget, hfits.tagged htag t.body.kind_mem_variants]
    simp only [Option.bind_eq_bind, Option.bind_some, hfits.ofObject hfields, optional_eq, hname,
      hpath, TargetBody.ofRecord?_of_covers hbody]
    simp [sharedMembers, List.lookup_append]

end Declared

end SwiftManifest
