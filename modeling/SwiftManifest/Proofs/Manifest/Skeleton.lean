import SwiftManifest.Proofs.Expression.Skeleton
import SwiftManifest.Proofs.Manifest.Replaced
import SwiftManifest.Proofs.Manifest.WellFormed
import Mathlib.Logic.Function.Basic

/-! The strings of a package do not reach the structure of its manifest: packages of the same shape
have manifests that differ in the contents of string literals only. -/

namespace SwiftManifest

def Platform.outline : Platform → Platform
  | .custom _ => .custom ""
  | known => known

namespace SupportedPlatform

/-- An entry without its strings. Of a literal version it matters whether it is empty. -/
def outline (p : SupportedPlatform) : SupportedPlatform :=
  { platform := p.platform.outline
    versionString := p.versionString.map fun version => if version = "" then "" else "0"
    version := p.version }

theorem literalVersion_outline (p : SupportedPlatform) :
    p.outline.literalVersion = p.literalVersion.map fun _ => "0" := by
  rcases p with ⟨platform, versionString, version⟩
  cases versionString with
  | none => rfl
  | some version =>
    by_cases h : version = ""
    · simp [outline, literalVersion, Option.filter, h]
    · simp [outline, literalVersion, Option.filter, h]

theorem mapText_outline (g : String → String) (p : SupportedPlatform) :
    p.outline.expression.mapText (fun _ => "") g = p.expression.mapText (fun _ => "") g := by
  have hliteral := p.literalVersion_outline
  cases hcustom : p.platform.isCustom with
  | true =>
    obtain ⟨name, hname⟩ := exists_custom hcustom
    have houtline : p.outline.platform = .custom "" := by simp [outline, Platform.outline, hname]
    rw [expression_of_custom hname, expression_of_custom houtline, hliteral]
    cases p.literalVersion <;> rfl
  | false =>
    have houtline : p.outline.platform = p.platform := by
      cases hplatform : p.platform <;> simp_all [outline, Platform.outline, Platform.isCustom]
    have hknown : p.outline.platform.isCustom = false := by rw [houtline, hcustom]
    rw [expression_of_known hcustom, expression_of_known hknown, hliteral, houtline]
    cases p.literalVersion <;> rfl

end SupportedPlatform

def erasing : Replacement where
  text _ := ""
  platform := SupportedPlatform.outline

namespace Package

/-- A package without its strings: constructors, optional fields that are present, lengths of lists
and symbols. -/
def outline (p : Package) : Package := p.replaced erasing fun _ => ""

/-- The same outline, and the same operators in the same version constraints. -/
structure SameShape (p q : Package) : Prop where
  outline : p.outline = q.outline
  requirements : p.dependencies.map (fun d => d.version.map requirementShape) =
    q.dependencies.map fun d => d.version.map requirementShape

end Package

section Representatives

/-- A constraint that stands for all constraints of its shape. -/
noncomputable def representative (constraint : String) : String :=
  Function.invFun requirementShape (requirementShape constraint)

theorem requirementShape_representative (constraint : String) :
    requirementShape (representative constraint) = requirementShape constraint :=
  Function.invFun_eq ⟨constraint, rfl⟩

theorem representative_representative (constraint : String) :
    representative (representative constraint) = representative constraint := by
  rw [representative, requirementShape_representative, ← representative]

theorem map_representative (constraint : Option String) :
    constraint.map representative =
      (constraint.map requirementShape).map (Function.invFun requirementShape) :=
  (Option.map_map _ _ _).symm

end Representatives

theorem erasing_hidden : erasing.Hidden (fun _ => "") representative where
  text _ := rfl
  platform := SupportedPlatform.mapText_outline representative

namespace PackageDependency

theorem replaced_eq_of_outline {ds es : List PackageDependency}
    (houtline : ds.map (·.replaced erasing fun _ => "") = es.map (·.replaced erasing fun _ => ""))
    (hrequirements : ds.map (fun d => d.version.map requirementShape) =
      es.map fun e => e.version.map requirementShape) :
    ds.map (·.replaced erasing representative) = es.map (·.replaced erasing representative) := by
  induction ds generalizing es with
  | nil => simp_all
  | cons d ds ih =>
    cases es with
    | nil => simp at houtline
    | cons e es =>
      obtain ⟨hhead, htail⟩ := List.cons.inj houtline
      obtain ⟨hversion, hversions⟩ := List.cons.inj hrequirements
      have hlocation : d.location.replaced erasing = e.location.replaced erasing :=
        congrArg location hhead
      have hrepresentative : d.version.map representative = e.version.map representative := by
        rw [map_representative, map_representative]
        exact congrArg (Option.map _) hversion
      rw [List.map_cons, List.map_cons, ih htail hversions, replaced, replaced, hlocation,
        hrepresentative]

end PackageDependency

namespace Package

theorem SameShape.replaced_eq {p q : Package} (h : p.SameShape q) :
    p.replaced erasing representative = q.replaced erasing representative := by
  have houtline := h.outline
  simp only [Package.outline, replaced, Package.mk.injEq] at houtline ⊢
  rcases houtline with ⟨hname, hlocalization, hplatforms, hproducts, hdependencies, hrest⟩
  exact ⟨hname, hlocalization, hplatforms, hproducts,
    PackageDependency.replaced_eq_of_outline hdependencies h.requirements, hrest⟩

theorem SameShape.skeleton_render_eq {p q : Package} (h : p.SameShape q) (hp : p.Plain)
    (hq : q.Plain) : skeleton (render p) = skeleton (render q) := by
  have hreplaced (p : Package) := mapText_replaced erasing_hidden representative_representative p
  have hmap : p.expression.mapText (fun _ => "") representative =
      q.expression.mapText (fun _ => "") representative := by
    rw [← hreplaced p, ← hreplaced q, h.replaced_eq]
  exact Expression.skeleton_print_eq requirementShape_representative (wellFormed hp)
    (wellFormed hq) hmap

theorem quote_not_mem_preamble : '"' ∉ preamble := by decide

theorem skeleton_document (p : Package) :
    skeleton p.document = preamble ++ skeleton (render p) := by
  rw [document, skeleton, skeletonFrom_append, skeletonFrom_of_not_mem quote_not_mem_preamble,
    scan_of_not_mem quote_not_mem_preamble, skeleton]

theorem scan_document {p : Package} (hp : p.Plain) : scan .outside p.document = .outside := by
  rw [document, scan_append, scan_of_not_mem quote_not_mem_preamble]
  exact Expression.scan_print (wellFormed hp)

end Package

/-- Strings cannot change the structure of a manifest. -/
theorem skeleton_document_eq {p q : Package} (hp : p.Plain) (hq : q.Plain) (h : p.SameShape q) :
    skeleton p.document = skeleton q.document ∧
      scan .outside p.document = .outside ∧ scan .outside q.document = .outside := by
  refine ⟨?_, Package.scan_document hp, Package.scan_document hq⟩
  rw [Package.skeleton_document, Package.skeleton_document, h.skeleton_render_eq hp hq]

theorem skeleton_document_of_quotes :
    let package (name constraint : String) : Package :=
      { name, dependencies := [{ location := .path name, version := some constraint }] }
    skeleton (package "A" "1.0..<2.0").document =
      skeleton (package "\"),\n\t\\(\\\"" "\"..<]").document :=
  (skeleton_document_eq (by decide) (by decide) ⟨by decide, by decide⟩).1

end SwiftManifest
