import SwiftManifest.Proofs.Descriptor.Schema
import SwiftManifest.Proofs.Descriptor.Lawful
import Mathlib.Data.List.Perm.Basic

/-! Edits of a value that are not meant to change what is read from it: members in another order,
members that are not known, and what a missing field stands for written out. A step lemma for each
way of reading an object says that edited values are read field by field alike. -/

namespace SwiftManifest

open Schema (names presence? fieldSchema positionSchema variantFields)

def Datum.isScalar : Datum → Bool
  | .null | .bool _ | .text _ => true
  | _ => false

/-- The order of members can only matter where two of them are alternatives. -/
def Schema.Settled (s : Schema) (members : List (String × Datum)) : Prop :=
  (members.filter fun m => presence? (s.fieldsOf members) m.1 = some .choice).length ≤ 1

/-- One edit, at any depth of a value with the schema `s`. -/
inductive Edit : Schema → Datum → Datum → Prop where
  | reorder {s : Schema} {ms ns : List (String × Datum)} (hperm : ms.Perm ns)
      (hsettled : s.Settled ms) : Edit s (.object ms) (.object ns)
  | unknown {s : Schema} {ms : List (String × Datum)} {name : String} {d : Datum}
      (hrecord : s.isRecord = true) (hname : name ∉ names (s.fieldsOf ms))
      (hscalar : d.isScalar = true) : Edit s (.object ms) (.object ((name, d) :: ms))
  | null {s : Schema} {ms : List (String × Datum)} {name : String}
      (hfield : presence? (s.fieldsOf ms) name = some .optional)
      (habsent : name ∉ ms.map Prod.fst) : Edit s (.object ms) (.object ((name, .null) :: ms))
  | empty {s : Schema} {ms : List (String × Datum)} {name : String} {p : Presence}
      (hfield : presence? (s.fieldsOf ms) name = some p) (hlist : p.isList = true)
      (habsent : name ∉ ms.map Prod.fst) :
      Edit s (.object ms) (.object ((name, .array []) :: ms))
  | member {s : Schema} {ms ns : List (String × Datum)} {name : String} {d e : Datum}
      (hinner : Edit (s.member (ms ++ (name, d) :: ns) name) d e) :
      Edit s (.object (ms ++ (name, d) :: ns)) (.object (ms ++ (name, e) :: ns))
  | element {s : Schema} {ds es : List Datum} {d e : Datum}
      (hinner : Edit (s.element (ds ++ d :: es) ds.length) d e) :
      Edit s (.array (ds ++ d :: es)) (.array (ds ++ e :: es))

section Members

variable {ms ns : List (String × Datum)} {name : String}

theorem perm_eq_of_length_le_one {α : Type} {l l' : List α} (h : l.Perm l')
    (hl : l.length ≤ 1) : l = l' := by
  cases l with
  | nil => exact (List.nil_perm.mp h).symm
  | cons a l =>
    have hnil : l = [] := by simpa using hl
    subst hnil
    exact List.singleton_perm.mp h

theorem lookup_eq_find? (ms : List (String × Datum)) (name : String) :
    ms.lookup name = (ms.find? fun m => m.1 = name).map Prod.snd := by
  induction ms with
  | nil => rfl
  | cons m ms ih =>
    obtain ⟨other, d⟩ := m
    rw [lookup_member, List.find?_cons, ih]
    by_cases h : name = other
    · simp [h]
    · simp [h, Ne.symm h]

theorem lookup_perm (h : ms.Perm ns) (hone : (ms.filter fun m => m.1 = name).length ≤ 1) :
    ms.lookup name = ns.lookup name := by
  rw [lookup_eq_find?, lookup_eq_find?, ← List.head?_filter, ← List.head?_filter,
    perm_eq_of_length_le_one (h.filter fun m => m.1 = name) hone]

/-- Leaving out members with other names does not matter to a name. -/
theorem lookup_filter (ms : List (String × Datum)) (chosen : String → Bool) (h : chosen name) :
    (ms.filter fun m => chosen m.1).lookup name = ms.lookup name := by
  rw [lookup_eq_find?, lookup_eq_find?, List.find?_filter]
  congr 2
  funext m
  by_cases hm : m.1 = name <;> simp [hm, h]

theorem filter_eq_nil_of_absent (h : name ∉ ms.map Prod.fst) :
    ms.filter (fun m => m.1 = name) = [] := by
  rw [List.filter_eq_nil_iff]
  intro m hm he
  have hname : m.1 = name := by simpa using he
  exact h (hname ▸ List.mem_map_of_mem hm)

theorem lookup_eq_none_of_absent (h : name ∉ ms.map Prod.fst) : ms.lookup name = none := by
  rw [lookup_eq_find?, ← List.head?_filter, filter_eq_nil_of_absent h]
  rfl

theorem lookup_append_member (ms ns : List (String × Datum)) (name field : String) (d : Datum) :
    (ms ++ (name, d) :: ns).lookup field =
      (ms.lookup field).or (if field = name then some d else ns.lookup field) := by
  rw [List.lookup_append, lookup_member]

end Members

theorem Edit.readable_eq {s : Schema} {d e : Datum} (h : Edit s d e) : d.readable = e.readable := by
  induction h with
  | reorder hperm _ =>
    rw [Bool.eq_iff_iff]
    simp only [Datum.readable, Datum.membersReadable_iff, hperm.mem_iff]
  | @unknown _ _ _ d _ _ hscalar =>
    cases d <;> simp_all [Datum.readable, Datum.membersReadable, Datum.isScalar]
  | null => simp [Datum.readable, Datum.membersReadable]
  | empty => simp [Datum.readable, Datum.membersReadable, Datum.allReadable]
  | member _ ih =>
    rw [Bool.eq_iff_iff]
    simp [Datum.readable, Datum.membersReadable_iff, ih, or_imp, forall_and]
  | element _ ih =>
    rw [Bool.eq_iff_iff]
    simp [Datum.readable, Datum.allReadable_iff, ih, or_imp, forall_and]

/-- Of the members with chosen names just as many can be held. -/
theorem Edit.membersReadable_filter {s : Schema} {ms ns : List (String × Datum)}
    (h : Edit s (.object ms) (.object ns)) (chosen : String → Bool) :
    Datum.membersReadable (ms.filter fun m => chosen m.1) =
      Datum.membersReadable (ns.filter fun m => chosen m.1) := by
  have hinsert : ∀ name d, Datum.readable d = true →
      Datum.membersReadable (ms.filter fun m => chosen m.1) =
        Datum.membersReadable (((name, d) :: ms).filter fun m => chosen m.1) := by
    intro name d hd
    by_cases hname : chosen name = true <;> simp [hname, Datum.membersReadable, hd]
  cases h with
  | reorder hperm _ =>
    rw [Bool.eq_iff_iff]
    simp only [Datum.membersReadable_iff, List.mem_filter, hperm.mem_iff]
  | @unknown _ _ _ d _ _ hscalar =>
    refine hinsert _ _ ?_
    cases d <;> simp_all [Datum.readable, Datum.isScalar]
  | null _ _ => exact hinsert _ _ rfl
  | empty _ _ _ => exact hinsert _ _ rfl
  | @member _ ms ns name d e hinner =>
    rw [Bool.eq_iff_iff]
    have hsame := hinner.readable_eq
    by_cases hname : chosen name = true <;>
      simp [Datum.membersReadable_iff, hname, hsame, or_imp, forall_and]

theorem held?_eq (place : Place) (d : Datum) : held? place d = none ∨ held? place d = some d := by
  unfold held?
  split
  · exact .inl rfl
  · exact .inr rfl

/-- Where a value can be held, so can one that asks for less. -/
theorem held?_of_readable_imp {d e held : Datum} (h : d.readable = true → e.readable = true)
    {place : Place} (hd : held? place d = some held) : held? place e = some e := by
  refine if_neg ?_
  rintro ⟨hplace, hunreadable⟩
  have hlost : d.readable = false := by
    refine Bool.eq_false_iff.mpr fun hreadable => ?_
    rw [h hreadable] at hunreadable
    cases hunreadable
  rw [held?, if_pos ⟨hplace, hlost⟩] at hd
  cases hd

theorem Edit.held {s : Schema} {d e : Datum} (h : Edit s d e) (place : Place)
    {r : Datum → Datum → Prop} (hr : r d e) : Option.Rel r (held? place d) (held? place e) := by
  unfold held?
  rw [h.readable_eq]
  split
  · exact .none
  · exact .some hr

/-- The member of one field before and after an edit. -/
inductive FieldAlike (p : Presence) (s : Schema) : Option Datum → Option Datum → Prop where
  | same (d? : Option Datum) : FieldAlike p s d? d?
  | edited {d e : Datum} (h : Edit s d e) : FieldAlike p s (some d) (some e)
  | null (hp : p = .optional) : FieldAlike p s none (some .null)
  | empty (hp : p.isList = true) : FieldAlike p s none (some (.array []))

/-- Two records that agree, up to an edit, in the fields that are looked at. -/
structure Record.Alike (fields : Schema.Fields) (r r' : Record) : Prop where
  place : r.place = r'.place
  members : ∀ f ∈ fields, FieldAlike f.2.1 f.2.2 (r.members.lookup f.1) (r'.members.lookup f.1)

theorem Record.Alike.mono {fields part : Schema.Fields} {r r' : Record} (h : r.Alike fields r')
    (hpart : part ⊆ fields) : r.Alike part r' :=
  ⟨h.place, fun f hf => h.members f (hpart hf)⟩

theorem lookup_of_mem {fields : Schema.Fields} (hnodup : (names fields).Nodup)
    {f : String × Presence × Schema} (hf : f ∈ fields) : fields.lookup f.1 = some f.2 := by
  induction fields with
  | nil => simp at hf
  | cons g fields ih =>
    obtain ⟨name, rest⟩ := g
    simp only [names, List.map_cons, List.nodup_cons] at hnodup
    rcases List.mem_cons.mp hf with rfl | hf
    · simp
    · have hne : f.1 ≠ name := by
        intro he
        exact hnodup.1 (he ▸ List.mem_map_of_mem hf)
      rw [List.lookup_cons, beq_false_of_ne hne]
      exact ih hnodup.2 hf

/-- What an edit does to the members of one field: it repeats none, and it leaves the only one or
changes it as its schema allows. -/
structure MembersAlike (f : String × Presence × Schema) (ms ns : List (String × Datum)) :
    Prop where
  once : (ms.filter fun m => m.1 = f.1).length ≤ 1 ↔ (ns.filter fun m => m.1 = f.1).length ≤ 1
  field : (ms.filter fun m => m.1 = f.1).length ≤ 1 →
    FieldAlike f.2.1 f.2.2 (ms.lookup f.1) (ns.lookup f.1)

theorem MembersAlike.insert {f : String × Presence × Schema} {ms : List (String × Datum)}
    {name : String} {d : Datum} (habsent : f.1 = name → name ∉ ms.map Prod.fst)
    (hnew : f.1 = name → FieldAlike f.2.1 f.2.2 none (some d)) :
    MembersAlike f ms ((name, d) :: ms) := by
  by_cases he : f.1 = name
  · have hnone := habsent he
    subst he
    constructor
    · simp [filter_eq_nil_of_absent hnone]
    · intro _
      rw [lookup_member, if_pos rfl, lookup_eq_none_of_absent hnone]
      exact hnew rfl
  · constructor
    · simp [Ne.symm he]
    · intro _
      rw [lookup_member, if_neg he]
      exact .same _

theorem Edit.membersAlike {fields : Schema.Fields} {ms ns : List (String × Datum)}
    (h : Edit (.record fields) (.object ms) (.object ns)) (hnodup : (names fields).Nodup)
    {f : String × Presence × Schema} (hf : f ∈ fields) : MembersAlike f ms ns := by
  have hlookup := lookup_of_mem hnodup hf
  have hpresence : presence? fields f.1 = some f.2.1 := by simp [presence?, hlookup]
  have hknown : f.1 ∈ names fields := List.mem_map_of_mem hf
  cases h with
  | reorder hperm _ =>
    constructor
    · rw [(hperm.filter fun m => m.1 = f.1).length_eq]
    · intro hone
      rw [lookup_perm hperm hone]
      exact .same _
  | unknown _ hname _ =>
    exact .insert (fun he => absurd (he ▸ hknown) hname) fun he => absurd (he ▸ hknown) hname
  | null hfield habsent =>
    refine .insert (fun _ => habsent) ?_
    rintro rfl
    exact .null (Option.some.inj (hpresence.symm.trans hfield))
  | empty hfield hlist habsent =>
    refine .insert (fun _ => habsent) ?_
    rintro rfl
    have hp := Option.some.inj (hpresence.symm.trans hfield)
    exact .empty (hp ▸ hlist)
  | @member _ ms ns name d e hinner =>
    constructor
    · by_cases he : name = f.1 <;> simp [he]
    · intro _
      rw [lookup_append_member, lookup_append_member]
      cases ms.lookup f.1 with
      | some c => exact .same _
      | none =>
        by_cases he : f.1 = name
        · subst he
          have hschema : (Schema.record fields).member (ms ++ (f.1, d) :: ns) f.1 = f.2.2 := by
            simp [Schema.member, Schema.fieldsOf, fieldSchema, hlookup]
          rw [hschema] at hinner
          simpa using FieldAlike.edited hinner
        · simpa [he] using FieldAlike.same _

theorem Edit.containers {s : Schema} {d e : Datum} (h : Edit s d e) :
    (∃ ms ns, d = .object ms ∧ e = .object ns) ∨ ∃ ds es, d = .array ds ∧ e = .array es := by
  cases h <;> simp

/-- A record that has to be an object, of which some fields are read. -/
theorem Edit.ofObject {fields part : Schema.Fields} {d e : Datum}
    (h : Edit (.record fields) d e) (hnodup : (names fields).Nodup) (hpart : part ⊆ fields)
    (place : Place) :
    Option.Rel (Record.Alike part) (Record.ofObject? place (names part) d)
      (Record.ofObject? place (names part) e) := by
  rcases h.containers with ⟨ms, ns, rfl, rfl⟩ | ⟨ds, es, rfl, rfl⟩
  · have halike : ∀ f ∈ part, MembersAlike f ms ns := fun f hf => h.membersAlike hnodup (hpart hf)
    have hsame : Record.unrepeated (names part) ms = Record.unrepeated (names part) ns := by
      rw [Bool.eq_iff_iff]
      simp only [Record.unrepeated, names, List.all_map, List.all_eq_true, Function.comp_apply,
        decide_eq_true_eq]
      exact forall₂_congr fun f hf => (halike f hf).once
    simp only [Record.ofObject?, ← hsame]
    by_cases hu : Record.unrepeated (names part) ms = true
    · rw [if_pos hu, if_pos hu]
      refine .some ⟨rfl, fun f hf => (halike f hf).field ?_⟩
      have hall := List.all_eq_true.mp hu f.1 (List.mem_map_of_mem hf)
      simpa using hall
    · rw [if_neg hu, if_neg hu]
      exact .none
  · exact .none

theorem zip_alike {fields : Schema.Fields} {ds es : List Datum} {d e : Datum}
    (h : Edit (positionSchema fields ds.length) d e) :
    ∀ f ∈ fields, (names fields).Nodup →
      FieldAlike f.2.1 f.2.2 (((names fields).zip (ds ++ d :: es)).lookup f.1)
        (((names fields).zip (ds ++ e :: es)).lookup f.1) := by
  induction fields generalizing ds with
  | nil => simp
  | cons g fields ih =>
    intro f hf hnodup
    simp only [names, List.map_cons, List.nodup_cons] at hnodup
    rcases List.mem_cons.mp hf with rfl | hf
    · cases ds with
      | nil => simpa [names, positionSchema] using FieldAlike.edited h
      | cons c ds => simpa [names] using FieldAlike.same _
    · have hne : f.1 ≠ g.1 := fun he => hnodup.1 (he ▸ List.mem_map_of_mem hf)
      cases ds with
      | nil => simpa [names, hne] using FieldAlike.same _
      | cons c ds => simpa [names, hne] using ih (by simpa [positionSchema] using h) f hf hnodup.2

/-- A record by name or by position. -/
theorem Edit.of {fields : Schema.Fields} {d e : Datum} (h : Edit (.record fields) d e)
    (hnodup : (names fields).Nodup) (place : Place) :
    Option.Rel (Record.Alike fields) (Record.of? place (names fields) d)
      (Record.of? place (names fields) e) := by
  rcases h.containers with ⟨ms, ns, rfl, rfl⟩ | ⟨ds, es, rfl, rfl⟩
  · exact h.ofObject hnodup (List.Subset.refl _) place
  · cases h with
    | @element _ ds es d e hinner =>
      simp only [Record.of?, List.length_append, List.length_cons]
      split
      · exact .some ⟨rfl, fun f hf => zip_alike hinner f hf hnodup⟩
      · exact .none

end SwiftManifest
