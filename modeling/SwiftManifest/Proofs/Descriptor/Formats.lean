import SwiftManifest.Descriptor.Load
import SwiftManifest.Proofs.Descriptor.Edited
import SwiftManifest.Proofs.Descriptor.Tabular
import SwiftManifest.Proofs.Toml.RoundTrip

/-! The two notations describe the same packages. A package is written as a table that either
notation can hold, and what is loaded from a text depends on the table that is read from it: not on
the notation, and not on the order of members, which the headers of TOML tables can change. -/

namespace SwiftManifest

open Relation (ReflTransGen)

namespace Package

/-- The TOML text of a package, with the members of its snapshot. -/
def tomlText (p : Package) : Text := Toml.document p.members

theorem read_tomlText (p : Package) : Toml.read p.tomlText = some p.encode :=
  Toml.read_document (LawfulCodec.textual p) (TabularCodec.tabular p) (by decide)

end Package

section Texts

variable {format : DescriptorFormat} {content : String} {p : Package} {d : Datum}

/-- What a text loads does not depend on its notation. -/
theorem DescriptorFormat.parse_of_edits (hread : format.read content.toList = some d)
    (hedits : ReflTransGen (Edit (schema Package)) p.encode d) :
    format.parse content = .ok p := by
  rw [format.parse_eq_ok_iff hread, ← StableCodec.decode_edits hedits format.place]
  exact LawfulCodec.decode_encode format.place p

theorem Package.parse_tomlText (p : Package) :
    DescriptorFormat.toml.parse (String.ofList p.tomlText) = .ok p := by
  have hread : DescriptorFormat.toml.read (String.ofList p.tomlText).toList = some p.encode := by
    rw [String.toList_ofList]
    exact p.read_tomlText
  exact DescriptorFormat.parse_of_edits hread .refl

theorem generateFromText_of_parse (h : format.parse content = .ok p) :
    generateFromText format content = (do return .ok (← p.documentTraced)) := by
  rw [generateFromText, h]

end Texts

/-- The value of a package has no nulls and repeats no name. It is read back from the JSON text and
from the TOML text of the package; both texts load the package and generate one manifest, and so
does every text of either notation whose value differs from it by edits. -/
theorem Package.formats_agree (p : Package) :
    p.encode.Tabular ∧
    Json.read p.snapshot = some p.encode ∧ Toml.read p.tomlText = some p.encode ∧
    DescriptorFormat.json.parse (String.ofList p.snapshot) = .ok p ∧
    DescriptorFormat.toml.parse (String.ofList p.tomlText) = .ok p ∧
    generateFromText .toml (String.ofList p.tomlText) =
      generateFromText .json (String.ofList p.snapshot) ∧
    ∀ (format : DescriptorFormat) (content : String) (d : Datum),
      format.read content.toList = some d →
      ReflTransGen (Edit (schema Package)) p.encode d →
      format.parse content = .ok p ∧
      generateFromText format content =
        generateFromText .json (String.ofList p.snapshot) := by
  have hjson := generateFromText_of_parse p.parse_snapshot
  refine ⟨TabularCodec.tabular p, p.read_snapshot, p.read_tomlText, p.parse_snapshot,
    p.parse_tomlText, ?_, ?_⟩
  · rw [generateFromText_of_parse p.parse_tomlText, hjson]
  · intro format content d hread hedits
    have hparse := DescriptorFormat.parse_of_edits hread hedits
    exact ⟨hparse, by rw [generateFromText_of_parse hparse, hjson]⟩

/-- A target under a header of its own, with its members in another order. -/
theorem Package.formats_agree_header :
    DescriptorFormat.toml.parse
        "name = \"P\"\n[[targets]]\nname = \"A\"\nkind = \"testTarget\"\n" =
      .ok { name := "P", targets := [{ name := some "A", body := .test {} }] } := by
  let p : Package := { name := "P", targets := [{ name := some "A", body := .test {} }] }
  let name : String × Datum := ("name", .text "A")
  let kind : String × Datum := ("kind", .text "testTarget")
  have hmembers : Edit (schema Target) (.object [kind, name]) (.object [name, kind]) := by
    refine .reorder (.swap _ _ _) ?_
    unfold Schema.Settled
    decide
  have helement : Edit ((schema Package).member
      ([("name", .text "P")] ++ ("targets", .array [.object [kind, name]]) :: []) "targets")
      (.array ([] ++ .object [kind, name] :: [])) (.array ([] ++ .object [name, kind] :: [])) :=
    .element hmembers
  have hencode : p.encode =
      .object ([("name", .text "P")] ++ ("targets", .array [.object [kind, name]]) :: []) := rfl
  have hedit : Edit (schema Package) p.encode
      (.object ([("name", .text "P")] ++ ("targets", .array [.object [name, kind]]) :: [])) := by
    rw [hencode]
    exact .member helement
  have hread : Toml.read "name = \"P\"\n[[targets]]\nname = \"A\"\nkind = \"testTarget\"\n".toList =
      some (.object ([("name", .text "P")] ++
        ("targets", .array [.object [name, kind]]) :: [])) := by
    simp only [String.reduceToList]
    rfl
  obtain ⟨-, -, -, -, -, -, hother⟩ := formats_agree p
  exact (hother .toml _ _ hread (.single hedit)).1

end SwiftManifest
