import SwiftManifest.Descriptor.Platform
import SwiftManifest.Proofs.Datum.Textual
import SwiftManifest.Proofs.Symbolic

/-! Codecs that read back what they write, wherever the value stands, and the records they are made
of. A field reader depends on the member of its name only. -/

namespace SwiftManifest

/-- What is written is textual, nests at most `depth` deep and is read back in every place. -/
class LawfulCodec (α : Type) [Codec α] where
  depth : Nat
  textual : ∀ a : α, (encode a).Textual depth
  decode_encode : ∀ (place : Place) (a : α), decode place (encode a) = some a

export LawfulCodec (decode_encode)

instance : LawfulCodec String where
  depth := 0
  textual value := .text value
  decode_encode _ _ := rfl

instance {α : Type} [Codec α] [LawfulCodec α] : LawfulCodec (List α) where
  depth := LawfulCodec.depth α + 1
  textual as := by
    refine .array ?_
    intro d hd
    obtain ⟨a, -, rfl⟩ := List.mem_map.mp hd
    exact LawfulCodec.textual a
  decode_encode place as := by
    change (as.map encode).mapM (decode place) = some as
    induction as with
    | nil => rfl
    | cons a as ih => simp [decode_encode, ih]

instance {α : Type} [Symbolic α] : LawfulCodec α where
  depth := 0
  textual _ := .text _
  decode_encode _ a := Symbolic.ofSymbol?_symbol a

/-- Members whose names are among `fields`, in their order and each at most once, and whose values
are textual. -/
structure Fits (fields : List String) (n : Nat) (members : List (String × Datum)) : Prop where
  names : (members.map Prod.fst).Sublist fields
  textual : ∀ m ∈ members, m.2.Textual n

namespace Fits

variable {α : Type} [Codec α] [LawfulCodec α] {n : Nat}

theorem nil : Fits [] n [] := ⟨List.Sublist.refl _, by simp⟩

theorem append {fs gs : List String} {ms ns : List (String × Datum)} (hm : Fits fs n ms)
    (hn : Fits gs n ns) : Fits (fs ++ gs) n (ms ++ ns) where
  names := by
    rw [List.map_append]
    exact hm.names.append hn.names
  textual m h := by
    rcases List.mem_append.mp h with h | h
    · exact hm.textual m h
    · exact hn.textual m h

theorem member (name : String) (a : α) (h : LawfulCodec.depth α ≤ n) :
    Fits [name] n [(name, encode a)] where
  names := List.Sublist.refl _
  textual := by simpa using (LawfulCodec.textual a).mono h

theorem text (name value : String) : Fits [name] n [textMember name value] :=
  member name value (Nat.zero_le n)

theorem optional (name : String) (o : Option α) (h : LawfulCodec.depth α ≤ n) :
    Fits [name] n (optionalMember name o) := by
  cases o with
  | none => exact ⟨List.nil_sublist _, by simp [optionalMember]⟩
  | some a => exact member name a h

theorem list (name : String) (as : List α) (h : LawfulCodec.depth α < n) :
    Fits [name] n (listMember name as) := by
  cases as with
  | nil => exact ⟨List.nil_sublist _, by simp [listMember]⟩
  | cons a as => exact member name (a :: as) h

theorem nodup {fields : List String} {ms : List (String × Datum)} (h : Fits fields n ms)
    (hf : fields.Nodup) : (ms.map Prod.fst).Nodup :=
  h.names.nodup hf

theorem object {fields : List String} {ms : List (String × Datum)} (h : Fits fields n ms) :
    (Datum.object ms).Textual (n + 1) :=
  .object h.textual

theorem held {fields : List String} {ms : List (String × Datum)} (h : Fits fields n ms)
    (place : Place) : held? place (.object ms) = some (.object ms) := by
  simp [held?, h.object.readable]

theorem variant {fields : List String} {ms : List (String × Datum)} (h : Fits fields n ms)
    (tag name : String) : (Datum.object (textMember tag name :: ms)).Textual (n + 1) :=
  .object (by simpa [textMember] using ⟨.text name, by simpa using h.textual⟩)

/-- A tag in front of the members of a variant is found and taken off. -/
theorem tagged {fields : List String} {ms : List (String × Datum)} (h : Fits fields n ms)
    {tag variant : String} (htag : tag ∉ fields) {variants : List String}
    (hv : variant ∈ variants) (place : Place) :
    tagged? place tag variants (.object (textMember tag variant :: ms)) =
      some (variant, .object ms) := by
  have hne : ∀ m ∈ ms, m.1 ≠ tag := by
    intro m hm he
    exact htag (h.names.subset (he ▸ List.mem_map_of_mem hm))
  have hno : (textMember tag variant :: ms).filter (fun m => m.1 = tag) =
      [textMember tag variant] := by
    simpa [textMember, List.filter_eq_nil_iff] using hne
  have hall : (textMember tag variant :: ms).filter (fun m => m.1 ≠ tag) = ms := by
    simpa [textMember, List.filter_eq_self] using hne
  simp only [tagged?, hno, hall]
  simp [textMember, variantName?, hv, h.held place]

end Fits

theorem Record.unrepeated_of_nodup {ms : List (String × Datum)} (h : (ms.map Prod.fst).Nodup)
    (fields : List String) : Record.unrepeated fields ms = true := by
  unfold Record.unrepeated
  rw [List.all_eq_true]
  intro field _
  have hcount := List.nodup_iff_count_le_one.mp h field
  rw [List.count_eq_countP, List.countP_map, List.countP_eq_length_filter] at hcount
  simpa [Function.comp_def, beq_eq_decide] using hcount

namespace Fits

theorem ofObject {fields : List String} {n : Nat} {ms : List (String × Datum)}
    (h : Fits fields n ms) (hf : fields.Nodup) (place : Place) (gs : List String) :
    Record.ofObject? place gs (.object ms) = some { place, members := ms } := by
  simp [Record.ofObject?, Record.unrepeated_of_nodup (h.nodup hf)]

theorem of {fields : List String} {n : Nat} {ms : List (String × Datum)}
    (h : Fits fields n ms) (hf : fields.Nodup) (place : Place) (gs : List String) :
    Record.of? place gs (.object ms) = some { place, members := ms } :=
  h.ofObject hf place gs

end Fits

namespace Record

variable {α : Type} [Codec α]

/-- A field as it is read from the member of its name. -/
def requiredOf (place : Place) (d? : Option Datum) : Option α := d?.bind (decode place)

def optionalOf (place : Place) : Option Datum → Option (Option α)
  | none => some none
  | some .null => some none
  | some d => (decode place d).map some

def listOf (place : Place) : Option Datum → Option (List α)
  | none => some []
  | some d => decode place d

theorem required_eq (r : Record) (field : String) :
    (r.required field : Option α) = requiredOf r.place (r.members.lookup field) := rfl

theorem optional_eq (r : Record) (field : String) :
    (r.optional field : Option (Option α)) = optionalOf r.place (r.members.lookup field) := by
  unfold Record.optional
  cases r.members.lookup field with
  | none => rfl
  | some d => cases d <;> rfl

theorem list_eq (r : Record) (field : String) :
    (r.list field : Option (List α)) = listOf r.place (r.members.lookup field) := by
  unfold Record.list
  cases r.members.lookup field <;> rfl

variable [LawfulCodec α]

@[simp] theorem requiredOf_encode (place : Place) (a : α) :
    requiredOf place (some (encode a)) = some a :=
  decode_encode place a

@[simp] theorem requiredOf_text (place : Place) (value : String) :
    requiredOf place (some (.text value)) = some value := rfl

@[simp] theorem optionalOf_encode (place : Place) (o : Option α) :
    optionalOf place (o.map encode) = some o := by
  cases o with
  | none => rfl
  | some a =>
    rw [Option.map_some]
    have hd := decode_encode place a
    have hnull := (LawfulCodec.textual a).ne_null
    revert hd hnull
    generalize encode a = d
    cases d <;> simp_all [optionalOf]

@[simp] theorem listOf_encode (place : Place) (as : List α) :
    listOf place (some (encode as)) = some as :=
  decode_encode place as

/-- The member of a list that is left out when it is empty. -/
def written : List α → Option Datum
  | [] => none
  | as => some (encode as)

@[simp] theorem listOf_written (place : Place) (as : List α) :
    listOf place (written as) = some as := by
  cases as with
  | nil => rfl
  | cons a as => exact decode_encode place (a :: as)

end Record

section Lookup

variable {α : Type} [Codec α]

@[simp] theorem lookup_member (name field : String) (d : Datum) (ms : List (String × Datum)) :
    ((name, d) :: ms).lookup field = if field = name then some d else ms.lookup field := by
  by_cases h : field = name
  · simp [h]
  · rw [List.lookup_cons, beq_false_of_ne h, if_neg h]

@[simp] theorem lookup_textMember (name value field : String) (ms : List (String × Datum)) :
    (textMember name value :: ms).lookup field =
      if field = name then some (.text value) else ms.lookup field :=
  lookup_member name field (.text value) ms

@[simp] theorem lookup_optionalMember (name field : String) (o : Option α) :
    (optionalMember name o).lookup field = if field = name then o.map encode else none := by
  cases o <;> simp [optionalMember, -List.lookup_singleton]

@[simp] theorem lookup_listMember (name field : String) (as : List α) :
    (listMember name as).lookup field = if field = name then Record.written as else none := by
  cases as <;> simp [listMember, Record.written, -List.lookup_singleton]

end Lookup

/-- The members of a record that have a name among `fields` are those of `members`. -/
def Record.Covers (r : Record) (fields : List String) (members : List (String × Datum)) : Prop :=
  ∀ field ∈ fields, r.members.lookup field = members.lookup field

theorem Fits.lookup_eq_none {fields : List String} {n : Nat} {ms : List (String × Datum)}
    (h : Fits fields n ms) {field : String} (hf : field ∉ fields) : ms.lookup field = none := by
  rw [List.lookup_eq_none_iff]
  intro m hm
  have hne : field ≠ m.1 := fun he => hf (he ▸ h.names.subset (List.mem_map_of_mem hm))
  simpa using hne

/-- Layers without a common field are read separately. -/
theorem Record.Covers.split {r : Record} {fs gs : List String} {n : Nat}
    {ms ns : List (String × Datum)} (h : r.Covers (fs ++ gs) (ms ++ ns)) (hm : Fits fs n ms)
    (hn : Fits gs n ns) (hd : ∀ f ∈ fs, f ∉ gs) : r.Covers fs ms ∧ r.Covers gs ns := by
  constructor
  · intro f hf
    rw [h f (List.mem_append_left _ hf), List.lookup_append, hn.lookup_eq_none (hd f hf),
      Option.or_none]
  · intro f hf
    have hnot : f ∉ fs := fun hfs => hd f hfs hf
    rw [h f (List.mem_append_right _ hf), List.lookup_append, hm.lookup_eq_none hnot,
      Option.none_or]

end SwiftManifest
