import SwiftManifest.Proofs.Descriptor.Lawful

/-! Platforms, conditions and plain records of settings and providers are read back. -/

namespace SwiftManifest

open Record (required_eq optional_eq list_eq)

instance : LawfulCodec Platform where
  depth := 1
  textual p := by
    cases p with
    | custom name => exact (Fits.text "custom" name (n := 0)).object
    | _ => exact .text _
  decode_encode place p := by
    cases p <;> rfl

namespace SupportedPlatform

theorem fits (p : SupportedPlatform) :
    Fits ["platform", "versionString", "version"] 1 p.members :=
  ((Fits.member "platform" p.platform (by decide)).append
    (.optional "versionString" p.versionString (by decide))).append
    (.optional "version" p.version (by decide))

instance : LawfulCodec SupportedPlatform where
  depth := 2
  textual p := p.fits.object
  decode_encode place p := by
    change SupportedPlatform.decode place (.object p.members) = some p
    rw [SupportedPlatform.decode, p.fits.of (by decide)]
    simp [members, required_eq, optional_eq, List.lookup_append]

end SupportedPlatform

namespace Condition

theorem fits (c : Condition) : Fits ["platforms", "configuration"] 3 c.members :=
  (Fits.optional "platforms" c.platforms (by decide)).append
    (.optional "configuration" c.configuration (by decide))

instance : LawfulCodec Condition where
  depth := 4
  textual c := c.fits.object
  decode_encode place c := by
    change Condition.decode place (.object c.members) = some c
    rw [Condition.decode, c.fits.of (by decide)]
    simp [members, optional_eq, List.lookup_append]

end Condition

end SwiftManifest
