import SwiftManifest.Proofs.Descriptor.Edit

/-! Values that are read the same after an edit. Each way of reading a value, by fields, by a tag or
by name, keeps this; so it holds of a type as soon as it holds of the types of its fields. -/

namespace SwiftManifest

open Schema (Fields names presence? fieldSchema positionSchema variantFields)

/-- No edit changes what is read, wherever the value stands. -/
class StableCodec (α : Type) [Codec α] [Described α] : Prop where
  decode_eq : ∀ (place : Place) (d e : Datum), Edit (schema α) d e →
    (decode place d : Option α) = decode place e

section Binding

variable {α β γ : Type} {r : α → β → Prop} {x : Option α} {y : Option β}

theorem bind_eq_of_rel (h : Option.Rel r x y) {f : α → Option γ} {g : β → Option γ}
    (hfg : ∀ a b, r a b → f a = g b) : x >>= f = y >>= g := by
  cases h with
  | some hab => exact hfg _ _ hab
  | none => rfl

end Binding

instance : StableCodec String where
  decode_eq place d e h := by
    rcases h.containers with ⟨ms, ns, rfl, rfl⟩ | ⟨ds, es, rfl, rfl⟩ <;> rfl

instance {α : Type} [Codec α] [Described α] [StableCodec α] : StableCodec (List α) where
  decode_eq place d e h := by
    rcases h.containers with ⟨ms, ns, rfl, rfl⟩ | ⟨_, _, rfl, rfl⟩
    · rfl
    · cases h with
      | element hinner =>
        have hdecode := StableCodec.decode_eq (α := α) place _ _ hinner
        change List.mapM (decode place) _ = List.mapM (decode place) _
        simp only [List.mapM_append, List.mapM_cons, hdecode]

namespace FieldAlike

variable {α : Type} [Codec α] [Described α] [StableCodec α] {d? e? : Option Datum}

theorem requiredOf_eq (h : FieldAlike .required (schema α) d? e?) (place : Place) :
    (Record.requiredOf place d? : Option α) = Record.requiredOf place e? := by
  cases h with
  | same => rfl
  | edited h => exact StableCodec.decode_eq place _ _ h
  | null hp => cases hp
  | empty hp => cases hp

theorem optionalOf_eq (h : FieldAlike .optional (schema α) d? e?) (place : Place) :
    (Record.optionalOf place d? : Option (Option α)) = Record.optionalOf place e? := by
  cases h with
  | same => rfl
  | edited h =>
    have hdecode := StableCodec.decode_eq (α := α) place _ _ h
    rcases h.containers with ⟨ms, ns, rfl, rfl⟩ | ⟨ds, es, rfl, rfl⟩ <;>
      simp [Record.optionalOf, hdecode]
  | null _ => rfl
  | empty hp => cases hp

theorem listOf_eq {p : Presence} (h : FieldAlike p (schema (List α)) d? e?)
    (hp : p.isList = true) (place : Place) :
    (Record.listOf place d? : Option (List α)) = Record.listOf place e? := by
  cases h with
  | same => rfl
  | edited h => exact StableCodec.decode_eq place _ _ h
  | null hnull =>
    subst hnull
    cases hp
  | empty _ => rfl

end FieldAlike

namespace Record.Alike

variable {α : Type} [Codec α] [Described α] [StableCodec α] {fields : Fields} {r r' : Record}

theorem required (h : r.Alike fields r') (name : String)
    (hf : field name .required α ∈ fields) :
    (r.required name : Option α) = r'.required name := by
  rw [required_eq, required_eq, ← h.place]
  exact (h.members _ hf).requiredOf_eq r.place

theorem optional (h : r.Alike fields r') (name : String)
    (hf : field name .optional α ∈ fields) :
    (r.optional name : Option (Option α)) = r'.optional name := by
  rw [optional_eq, optional_eq, ← h.place]
  exact (h.members _ hf).optionalOf_eq r.place

theorem list (h : r.Alike fields r') (p : Presence) (name : String)
    (hf : field name p (List α) ∈ fields) (hp : p.isList = true) :
    (r.list name : Option (List α)) = r'.list name := by
  rw [list_eq, list_eq, ← h.place]
  exact (h.members _ hf).listOf_eq hp r.place

end Record.Alike

section Tagged

variable {tag : String} {variants : List (String × Fields)}

/-- The same variant, with contents that differ by an edit. -/
structure VariantAlike (variants : List (String × Fields)) (x y : String × Datum) : Prop where
  name : x.1 = y.1
  content : ∃ fields, (x.1, fields) ∈ variants ∧ Edit (.record fields) x.2 y.2

/-- The variant that the only tag of an object names. -/
def variantOf? (place : Place) (tag : String) (variants : List String)
    (members : List (String × Datum)) : Option String :=
  match members.filter fun m => m.1 = tag with
  | [(_, d)] => variantName? place variants d
  | _ => none

theorem tagged?_object (place : Place) (tag : String) (variants : List String)
    (ms : List (String × Datum)) :
    tagged? place tag variants (.object ms) = (do
      let variant ← variantOf? place tag variants ms
      let rest ← held? place (.object (ms.filter fun m => m.1 ≠ tag))
      return (variant, rest)) := by
  simp only [tagged?, variantOf?]
  generalize ms.filter (fun m => m.1 = tag) = tags
  rcases tags with _ | ⟨⟨_, d⟩, _ | ⟨m, tags⟩⟩ <;> rfl

theorem variantName?_eq_none {s : Schema} {d e : Datum} (h : Edit s d e) (place : Place)
    (variants : List String) :
    variantName? place variants d = none ∧ variantName? place variants e = none := by
  rcases h.containers with ⟨ms, ns, rfl, rfl⟩ | ⟨ds, es, rfl, rfl⟩ <;> simp [variantName?]

theorem variantName?_held {place : Place} {variants : List String} {d : Datum} {variant : String}
    (h : variantName? place variants d = some variant) :
    variantName? .held variants d = some variant ∧ variant ∈ variants := by
  cases d with
  | text name =>
    simp only [variantName?] at h ⊢
    split at h
    · simp_all
    · cases h
  | index n =>
    simp only [variantName?] at h ⊢
    split at h
    · exact ⟨by simpa using h, List.mem_of_getElem? h⟩
    · cases h
  | _ => cases h

theorem lookup_of_mem_names {fields : List (String × Fields)} {name : String}
    (h : name ∈ fields.map Prod.fst) :
    ∃ fs, fields.lookup name = some fs ∧ (name, fs) ∈ fields := by
  induction fields with
  | nil => simp at h
  | cons f fields ih =>
    obtain ⟨other, fs⟩ := f
    by_cases he : name = other
    · exact ⟨fs, by simp [he], by simp [he]⟩
    · have hrest : name ∈ fields.map Prod.fst := by simpa [he] using h
      obtain ⟨fs, hlookup, hmem⟩ := ih hrest
      exact ⟨fs, by rw [List.lookup_cons, beq_false_of_ne he]; exact hlookup,
        List.mem_cons_of_mem _ hmem⟩

/-- The variant that is read is the one whose fields are known. -/
theorem variantFields_of_variantName? {place : Place} {d : Datum} {variant : String}
    (h : variantName? place (variants.map Prod.fst) d = some variant) :
    (variant, variantFields variants (some d)) ∈ variants := by
  obtain ⟨hheld, hmem⟩ := variantName?_held h
  obtain ⟨fs, hlookup, hfs⟩ := lookup_of_mem_names hmem
  simpa [variantFields, hheld, hlookup] using hfs

/-- The variant is named by the member that is looked up as the tag. -/
theorem variantOf?_eq_some {place : Place} {names : List String} {ms : List (String × Datum)}
    {variant : String} (h : variantOf? place tag names ms = some variant) :
    ∃ d, ms.lookup tag = some d ∧ variantName? place names d = some variant := by
  unfold variantOf? at h
  split at h
  · rename_i d hfilter
    refine ⟨d, ?_, h⟩
    rw [lookup_eq_find?, ← List.head?_filter, hfilter]
    rfl
  · cases h

theorem variantFields_of_variantOf? {place : Place} {ms : List (String × Datum)}
    {variant : String} (h : variantOf? place tag (variants.map Prod.fst) ms = some variant) :
    (variant, variantFields variants (ms.lookup tag)) ∈ variants := by
  obtain ⟨d, hlookup, hname⟩ := variantOf?_eq_some h
  rw [hlookup]
  exact variantFields_of_variantName? hname

theorem variantOf?_eq {ms ns : List (String × Datum)}
    (h : Edit (.tagged tag variants) (.object ms) (.object ns)) (place : Place)
    (names : List String) : variantOf? place tag names ms = variantOf? place tag names ns := by
  have hinsert : ∀ name d, name ≠ tag →
      variantOf? place tag names ms = variantOf? place tag names ((name, d) :: ms) := by
    intro name d hne
    simp [variantOf?, hne]
  cases h with
  | reorder hperm _ =>
    have htags := hperm.filter fun m => m.1 = tag
    by_cases hone : (ms.filter fun m => m.1 = tag).length ≤ 1
    · rw [variantOf?, variantOf?, perm_eq_of_length_le_one htags hone]
    · have hlength := htags.length_eq
      have hnone : ∀ l : List (String × Datum), ¬ (l.filter fun m => m.1 = tag).length ≤ 1 →
          variantOf? place tag names l = none := by
        intro l hl
        unfold variantOf?
        split
        · simp_all
        · rfl
      rw [hnone ms hone, hnone ns (hlength ▸ hone)]
  | unknown _ hname _ =>
    refine hinsert _ _ fun he => hname ?_
    simp [Schema.fieldsOf, Schema.names, he]
  | null hfield _ =>
    refine hinsert _ _ ?_
    rintro rfl
    simp [Schema.fieldsOf, presence?] at hfield
  | empty hfield hlist _ =>
    refine hinsert _ _ ?_
    rintro rfl
    simp only [Schema.fieldsOf, presence?, List.lookup_cons_self, Option.map_some,
      Option.some.injEq] at hfield
    subst hfield
    cases hlist
  | @member _ ms ns name d e hinner =>
    by_cases he : name = tag
    · obtain ⟨hd, he'⟩ := variantName?_eq_none hinner place names
      subst he
      simp only [variantOf?, List.filter_append, List.filter_cons, decide_true, if_true]
      generalize ms.filter (fun m => m.1 = name) = before
      generalize ns.filter (fun m => m.1 = name) = behind
      rcases before with _ | ⟨m, _ | ⟨m', before⟩⟩ <;> rcases behind with _ | ⟨n, behind⟩ <;>
        simp [hd, he']
    · simp [variantOf?, he]

theorem lookup_cons_of_ne {β : Type} {name other : String} (h : name ≠ other) (b : β)
    (l : List (String × β)) : ((other, b) :: l).lookup name = l.lookup name := by
  rw [List.lookup_cons, beq_false_of_ne h]

theorem presence?_cons_of_ne {name other : String} (h : name ≠ other) (b : Presence × Schema)
    (fields : Fields) : presence? ((other, b) :: fields) name = presence? fields name := by
  rw [presence?, lookup_cons_of_ne h, presence?]

theorem Schema.Settled.rest {fields : Fields} {ms : List (String × Datum)}
    (h : Schema.Settled (.tagged tag variants) ms)
    (hfields : variantFields variants (ms.lookup tag) = fields) :
    Schema.Settled (.record fields) (ms.filter fun m => m.1 ≠ tag) := by
  unfold Schema.Settled at h ⊢
  refine Nat.le_trans ?_ h
  rw [List.filter_filter, ← List.countP_eq_length_filter, ← List.countP_eq_length_filter]
  refine List.countP_mono_left ?_
  intro m _ hm
  rw [Bool.and_eq_true, decide_eq_true_eq, decide_eq_true_eq] at hm
  rw [decide_eq_true_eq, Schema.fieldsOf, hfields, presence?_cons_of_ne hm.2]
  exact hm.1

theorem presence?_rest {fields : Fields} {name : String} {p : Presence} (hp : p ≠ .required)
    (h : presence? ((tag, .required, .unread) :: fields) name = some p) :
    name ≠ tag ∧ presence? fields name = some p := by
  by_cases he : name = tag
  · subst he
    simp only [presence?, List.lookup_cons_self, Option.map_some, Option.some.injEq] at h
    exact absurd h.symm hp
  · rw [presence?_cons_of_ne he] at h
    exact ⟨he, h⟩

theorem absent_rest {ms : List (String × Datum)} {name : String}
    (h : name ∉ ms.map Prod.fst) : name ∉ (ms.filter fun m => m.1 ≠ tag).map Prod.fst :=
  fun hname => h ((List.filter_sublist.map Prod.fst).subset hname)

/-- Without the tag an edited object is an edit of the record of its variant. -/
theorem Edit.rest {fields : Fields} {ms ns : List (String × Datum)} {place : Place}
    {variant : String} (h : Edit (.tagged tag variants) (.object ms) (.object ns))
    (hvariant : variantOf? place tag (variants.map Prod.fst) ms = some variant)
    (hfields : variantFields variants (ms.lookup tag) = fields) :
    Edit (.record fields) (.object (ms.filter fun m => m.1 ≠ tag))
      (.object (ns.filter fun m => m.1 ≠ tag)) := by
  cases h with
  | reorder hperm hsettled => exact .reorder (hperm.filter _) (hsettled.rest hfields)
  | @unknown _ _ name d _ hname hscalar =>
    simp only [Schema.fieldsOf, hfields, names, List.map_cons, List.mem_cons, not_or] at hname
    simpa [hname.1] using Edit.unknown (s := .record fields) rfl hname.2 hscalar
  | @null _ _ name hfield habsent =>
    rw [Schema.fieldsOf, hfields] at hfield
    obtain ⟨hne, hrest⟩ := presence?_rest (by decide) hfield
    simpa [hne] using Edit.null (s := .record fields) hrest (absent_rest habsent)
  | @empty _ _ name p hfield hlist habsent =>
    rw [Schema.fieldsOf, hfields] at hfield
    have hp : p ≠ .required := by
      rintro rfl
      cases hlist
    obtain ⟨hne, hrest⟩ := presence?_rest hp hfield
    simpa [hne] using Edit.empty (s := .record fields) hrest hlist (absent_rest habsent)
  | @member _ ms ns name d e hinner =>
    by_cases he : name = tag
    · subst he
      exfalso
      have hnone := (variantName?_eq_none hinner place (variants.map Prod.fst)).1
      simp only [variantOf?, List.filter_append, List.filter_cons, decide_true, if_true]
        at hvariant
      generalize ms.filter (fun m => m.1 = name) = before at hvariant
      generalize ns.filter (fun m => m.1 = name) = behind at hvariant
      rcases before with _ | ⟨m, _ | ⟨m', before⟩⟩ <;> rcases behind with _ | ⟨n, behind⟩ <;>
        simp [hnone] at hvariant
    · have hmember : Schema.member (.tagged tag variants) (ms ++ (name, d) :: ns) name =
          fieldSchema fields name := by
        rw [Schema.member, Schema.fieldsOf, hfields, fieldSchema, lookup_cons_of_ne he]
        rfl
      rw [hmember] at hinner
      have hrest : Edit (.record fields)
          (.object ((ms.filter fun m => m.1 ≠ tag) ++ (name, d) :: ns.filter fun m => m.1 ≠ tag))
          (.object ((ms.filter fun m => m.1 ≠ tag) ++ (name, e) :: ns.filter fun m => m.1 ≠ tag)) :=
        .member hinner
      simpa [he] using hrest

theorem variantAlike_of_held {variant : String} {fields : Fields} {d? e? : Option Datum}
    (h : Option.Rel (Edit (.record fields)) d? e?) (hmem : (variant, fields) ∈ variants) :
    Option.Rel (VariantAlike variants) (do let rest ← d?; return (variant, rest))
      (do let rest ← e?; return (variant, rest)) := by
  cases h with
  | none => exact .none
  | some hedit => exact .some ⟨rfl, fields, hmem, hedit⟩

/-- A tagged value, as an object or by position. -/
theorem Edit.tagged {d e : Datum} (h : Edit (.tagged tag variants) d e) (place : Place) :
    Option.Rel (VariantAlike variants) (tagged? place tag (variants.map Prod.fst) d)
      (tagged? place tag (variants.map Prod.fst) e) := by
  rcases h.containers with ⟨ms, ns, rfl, rfl⟩ | ⟨_, _, rfl, rfl⟩
  · rw [tagged?_object, tagged?_object, ← variantOf?_eq h]
    cases hvariant : variantOf? place tag (variants.map Prod.fst) ms with
    | none => exact .none
    | some variant =>
      have hrest := h.rest hvariant rfl
      exact variantAlike_of_held (hrest.held place hrest) (variantFields_of_variantOf? hvariant)
  · cases h with
    | @element _ ds es d e hinner =>
      cases ds with
      | nil =>
        obtain ⟨hd, he⟩ := variantName?_eq_none hinner place (variants.map Prod.fst)
        simp only [List.nil_append, tagged?, hd, he]
        exact .none
      | cons c ds =>
        simp only [List.cons_append, tagged?]
        cases hvariant : variantName? place (variants.map Prod.fst) c with
        | none => exact .none
        | some variant =>
          have hrest : Edit (.record (variantFields variants (some c))) (.array (ds ++ d :: es))
              (.array (ds ++ e :: es)) := .element hinner
          exact variantAlike_of_held (hrest.held place hrest)
            (variantFields_of_variantName? hvariant)

end Tagged

theorem Edit.bare {s : Schema} {d e : Datum} (h : Edit s d e) : bare? d = bare? e := by
  rcases h.containers with ⟨ms, ns, rfl, rfl⟩ | ⟨_, _, rfl, rfl⟩
  · rfl
  · cases h with
    | element _ => simp [bare?]

section Enumerated

variable {α : Type}

theorem Edit.isBlank {d e : Datum} (h : Edit .unread d e) (place : Place) :
    isBlank place d = isBlank place e := by
  cases h with
  | @reorder _ ms ns hperm _ =>
    cases ms with
    | nil => rw [List.nil_perm.mp hperm]
    | cons m ms =>
      cases ns with
      | nil => exact absurd hperm.symm.nil_eq (by simp)
      | cons n ns => cases place <;> rfl
  | unknown hrecord _ _ => cases hrecord
  | null hfield _ => cases hfield
  | empty hfield _ _ => cases hfield
  | @member _ ms ns _ _ _ _ => cases ms <;> cases place <;> rfl
  | @element _ ds _ _ _ _ => cases ds <;> cases place <;> rfl

/-- The name of an enumerated value cannot be edited, nor can a text behind it. -/
theorem Edit.enumerated {names : List String} {d e : Datum} (h : Edit (.enumerated names) d e)
    (plain : String → Option α) (worded : String → String → Option α) (place : Place) :
    enumerated? plain worded place d = enumerated? plain worded place e := by
  have hmany : ∀ ms : List (String × Datum), ms.length ≠ 1 →
      enumerated? plain worded place (.object ms) = none := by
    intro ms hms
    rcases ms with _ | ⟨m, _ | ⟨m', ms⟩⟩
    · rfl
    · simp at hms
    · rfl
  cases h with
  | @reorder _ ms ns hperm _ =>
    by_cases hone : ms.length ≤ 1
    · rw [perm_eq_of_length_le_one hperm hone]
    · have hlength := hperm.length_eq
      rw [hmany ms (by omega), hmany ns (by omega)]
  | unknown hrecord _ _ => cases hrecord
  | null hfield _ => cases hfield
  | empty hfield _ _ => cases hfield
  | @member _ ms ns name d e hinner =>
    by_cases hone : (ms ++ (name, d) :: ns).length = 1
    · have hms : ms = [] := by
        cases ms with
        | nil => rfl
        | cons m ms => simp at hone
      have hns : ns = [] := by simpa [hms] using hone
      subst hms hns
      have hblank := Edit.isBlank hinner place
      simp only [List.nil_append, enumerated?]
      cases plain name with
      | some a => simp only [hblank]
      | none => rcases hinner.containers with ⟨_, _, rfl, rfl⟩ | ⟨_, _, rfl, rfl⟩ <;> rfl
    · rw [hmany _ hone, hmany _ (by simpa using hone)]
  | element _ => rfl

end Enumerated

end SwiftManifest
