import SwiftManifest.Proofs.Descriptor.Platform
import SwiftManifest.Descriptor.Dependency

/-! Package and target dependencies are read back. A package dependency shares its object with its
location, so the location is found among the members that are not its version. -/

namespace SwiftManifest

open Record (required_eq optional_eq optionalOf_encode)

namespace PackageDependency

theorem fits_located (name value : String) (version : Option String) :
    Fits [name, "version"] 0 (textMember name value :: optionalMember "version" version) :=
  (Fits.text name value).append (.optional "version" version (by decide))

/-- Without the version only the location is left. -/
theorem filter_located {name : String} (hname : name ≠ "version") (value : String)
    (version : Option String) :
    (textMember name value :: optionalMember "version" version).filter
      (fun m => m.1 ≠ "version") = [textMember name value] := by
  cases version <;> simp [textMember, optionalMember, hname]

theorem decode_located {name : String} (hname : name ≠ "version") (place : Place)
    (value : String) (version : Option String) :
    decode place (.object (textMember name value :: optionalMember "version" version)) =
      (Location.ofMembers? [textMember name value]).map fun location => { location, version } := by
  have hfits := fits_located name value version
  have hfields : [name, "version"].Nodup := by simpa using hname
  have hheld := (Fits.text (n := 0) name value).held place
  rw [decode, hfits.ofObject hfields]
  simp only [optional_eq, Option.bind_eq_bind, Option.bind_some, lookup_textMember,
    lookup_optionalMember, Ne.symm hname, ↓reduceIte, optionalOf_encode, filter_located hname,
    hheld]
  cases Location.ofMembers? [textMember name value] <;> rfl

instance : LawfulCodec PackageDependency where
  depth := 1
  textual d := by
    rcases d with ⟨location, version⟩
    cases location with
    | path value => exact (fits_located "path" value version).object
    | url value => exact (fits_located "url" value version).object
  decode_encode place d := by
    rcases d with ⟨location, version⟩
    cases location with
    | path value => exact decode_located (by decide) place value version
    | url value => exact decode_located (by decide) place value version

end PackageDependency

namespace TargetDependency

theorem fits_product (name : String) (package : Option String) (condition : Option Condition) :
    Fits ["name", "package", "condition"] 4
      (textMember "name" name :: (optionalMember "package" package ++
        optionalMember "condition" condition)) :=
  (Fits.text "name" name).append ((Fits.optional "package" package (by decide)).append
    (.optional "condition" condition (by decide)))

theorem fits_conditional (name : String) (condition : Option Condition) :
    Fits ["name", "condition"] 4
      (textMember "name" name :: optionalMember "condition" condition) :=
  (Fits.text "name" name).append (.optional "condition" condition (by decide))

theorem fits_literal (name : String) : Fits ["name"] 4 [textMember "name" name] :=
  .text "name" name

instance : LawfulCodec TargetDependency where
  depth := 5
  textual d := by
    cases d with
    | product name package condition =>
      exact (fits_product name package condition).variant "kind" "product"
    | target name condition => exact (fits_conditional name condition).variant "kind" "target"
    | byName name condition => exact (fits_conditional name condition).variant "kind" "byName"
    | literal name => exact (fits_literal name).variant "kind" "literal"
  decode_encode place d := by
    change decode place d.encode = some d
    cases d with
    | product name package condition =>
      have hfits := fits_product name package condition
      simp [encode, decode, variants, hfits.tagged, hfits.of, required_eq, optional_eq,
        List.lookup_append]
    | target name condition =>
      have hfits := fits_conditional name condition
      simp [encode, decode, variants, hfits.tagged, hfits.of, required_eq, optional_eq]
    | byName name condition =>
      have hfits := fits_conditional name condition
      simp [encode, decode, variants, hfits.tagged, hfits.of, required_eq, optional_eq]
    | literal name =>
      have hfits := fits_literal name
      simp [encode, decode, variants, hfits.tagged, hfits.of, required_eq]

end TargetDependency

end SwiftManifest
