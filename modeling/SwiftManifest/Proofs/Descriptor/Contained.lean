import SwiftManifest.Proofs.Descriptor.Stable

/-! What is written again stands in what was read. A value is spelled out when it leaves nothing to
positions or to a second notation; then every member that is written was there, with the same texts
in it, apart from empty lists that are always written. -/

namespace SwiftManifest

open Schema (Fields names presence? fieldSchema variantFields)
open Record (requiredOf optionalOf listOf required_eq optional_eq list_eq)

/-- The names that stand for an enumerated value without content. -/
def Schema.plain : Schema → List String
  | .enumerated plain => plain
  | _ => []

/-- A value without numbers in which records are objects and a name without content is a text. -/
inductive Spelled : Schema → Datum → Prop where
  | null {s : Schema} : Spelled s .null
  | bool {s : Schema} (value : Bool) : Spelled s (.bool value)
  | text {s : Schema} (value : String) : Spelled s (.text value)
  | array {s : Schema} {ds : List Datum} (hrecord : s.isRecord = false)
      (helements : ∀ i (h : i < ds.length), Spelled (s.element ds i) ds[i]) :
      Spelled s (.array ds)
  | object {s : Schema} {ms : List (String × Datum)}
      (hplain : ∀ name d, ms = [(name, d)] → name ∉ s.plain)
      (hmembers : ∀ m ∈ ms, Spelled (s.member ms m.1) m.2) : Spelled s (.object ms)

/-- The first value stands in the second: with the same texts, with lists of the same length and
with members that are there, unless they are lists that are written even when they are empty. -/
inductive Contained : Schema → Datum → Datum → Prop where
  | text {s : Schema} (value : String) : Contained s (.text value) (.text value)
  | array {s : Schema} {ds es : List Datum} (hlength : ds.length = es.length)
      (helements : ∀ i (h : i < ds.length) (h' : i < es.length),
        Contained (s.element ds i) ds[i] es[i]) : Contained s (.array ds) (.array es)
  | object {s : Schema} {ms ns : List (String × Datum)}
      (hfound : ∀ m ∈ ms, ∀ e, ns.lookup m.1 = some e → Contained (s.member ms m.1) m.2 e)
      (hadded : ∀ m ∈ ms, ns.lookup m.1 = none →
        presence? (s.fieldsOf ms) m.1 = some .keptList ∧ m.2 = .array []) :
      Contained s (.object ms) (.object ns)

/-- A member that is written, beside the members that were read. -/
inductive FoundIn (fields : Fields) (ns : List (String × Datum)) : String × Datum → Prop where
  | held {name : String} {p : Presence} {s : Schema} {d e : Datum}
      (hfield : (name, p, s) ∈ fields) (hlookup : ns.lookup name = some e)
      (hinner : Contained s d e) : FoundIn fields ns (name, d)
  | added {name : String} {s : Schema} (hfield : (name, .keptList, s) ∈ fields)
      (habsent : ns.lookup name = none) : FoundIn fields ns (name, .array [])

/-- Every member that is written is found or added. -/
def AllFound (fields : Fields) (ns ms : List (String × Datum)) : Prop :=
  ∀ m ∈ ms, FoundIn fields ns m

section Objects

variable {fields : Fields} {ms ns : List (String × Datum)}

theorem FoundIn.mono {part : Fields} {m : String × Datum} (h : FoundIn part ns m)
    (hpart : part ⊆ fields) : FoundIn fields ns m := by
  cases h with
  | held hfield hlookup hinner => exact .held (hpart hfield) hlookup hinner
  | added hfield habsent => exact .added (hpart hfield) habsent

/-- What is found or added among known members. -/
theorem FoundIn.spec {m : String × Datum} (h : FoundIn fields ns m)
    (hnodup : (names fields).Nodup) :
    (∀ e, ns.lookup m.1 = some e → Contained (fieldSchema fields m.1) m.2 e) ∧
      (ns.lookup m.1 = none → presence? fields m.1 = some .keptList ∧ m.2 = .array []) := by
  cases h with
  | held hfield hlookup hinner =>
    have hfields := lookup_of_mem hnodup hfield
    constructor
    · intro e he
      rw [hlookup, Option.some.injEq] at he
      subst he
      simpa [fieldSchema, hfields] using hinner
    · intro hnone
      rw [hlookup] at hnone
      cases hnone
  | added hfield habsent =>
    have hfields := lookup_of_mem hnodup hfield
    constructor
    · intro e he
      rw [habsent] at he
      cases he
    · intro _
      exact ⟨by simp [presence?, hfields], rfl⟩

theorem AllFound.append {ms' : List (String × Datum)} (h : AllFound fields ns ms)
    (h' : AllFound fields ns ms') : AllFound fields ns (ms ++ ms') :=
  List.forall_mem_append.mpr ⟨h, h'⟩

theorem AllFound.mono {part : Fields} (h : AllFound part ns ms) (hpart : part ⊆ fields) :
    AllFound fields ns ms :=
  fun m hm => (h m hm).mono hpart

theorem AllFound.single {m : String × Datum} (h : FoundIn fields ns m) :
    AllFound fields ns [m] :=
  List.forall_mem_singleton.mpr h

theorem Contained.record (hnodup : (names fields).Nodup) (h : AllFound fields ns ms) :
    Contained (.record fields) (.object ms) (.object ns) :=
  .object (fun m hm => ((h m hm).spec hnodup).1) fun m hm => ((h m hm).spec hnodup).2

theorem mem_of_lookup {name : String} {d : Datum} (h : ms.lookup name = some d) :
    (name, d) ∈ ms := by
  rw [lookup_eq_find?] at h
  obtain ⟨m, hm, rfl⟩ := Option.map_eq_some_iff.mp h
  have hname : m.1 = name := by simpa using List.find?_some hm
  exact hname ▸ List.mem_of_find?_eq_some hm

/-- The member of a field stands in the whole object if it stands beside the tag. -/
theorem FoundIn.ofRest {tag : String} {m : String × Datum}
    (h : FoundIn fields (ns.filter fun m => m.1 ≠ tag) m) (htag : tag ∉ names fields) :
    FoundIn fields ns m := by
  have hrest : ∀ name ∈ names fields,
      (ns.filter fun m => m.1 ≠ tag).lookup name = ns.lookup name := by
    intro name hname
    have hne : name ≠ tag := ne_of_mem_of_not_mem hname htag
    exact lookup_filter ns (fun name => name ≠ tag) (decide_eq_true hne)
  cases h with
  | held hfield hlookup hinner =>
    rw [hrest _ (List.mem_map_of_mem hfield)] at hlookup
    exact .held hfield hlookup hinner
  | added hfield habsent =>
    rw [hrest _ (List.mem_map_of_mem hfield)] at habsent
    exact .added hfield habsent

/-- A tagged value stands in another one if the tag is the same and its fields do. -/
theorem Contained.tagged {tag variant : String} {variants : List (String × Fields)}
    (htag : ns.lookup tag = some (.text variant))
    (hfields : variantFields variants (some (.text variant)) = fields)
    (hnodup : (tag :: names fields).Nodup)
    (h : AllFound fields (ns.filter fun m => m.1 ≠ tag) ms) :
    Contained (.tagged tag variants) (.object (textMember tag variant :: ms)) (.object ns) := by
  let known : Fields := (tag, .required, .unread) :: fields
  have hknown : (Schema.tagged tag variants).fieldsOf (textMember tag variant :: ms) = known := by
    simp only [Schema.fieldsOf, textMember, List.lookup_cons_self, hfields, known]
  have hall : AllFound known ns (textMember tag variant :: ms) := by
    intro m hm
    rcases List.mem_cons.mp hm with rfl | hm
    · exact .held List.mem_cons_self htag (.text variant)
    · have hrest := (h m hm).ofRest (List.nodup_cons.mp hnodup).1
      exact hrest.mono (List.subset_cons_self _ fields)
  refine .object ?_ ?_
  · intro m hm
    rw [Schema.member, hknown]
    exact ((hall m hm).spec hnodup).1
  · intro m hm
    rw [hknown]
    exact ((hall m hm).spec hnodup).2

end Objects

/-- Values of which nothing is written that was not in the value they were read from. -/
class FaithfulCodec (α : Type) [Codec α] [Described α] : Prop where
  contained : ∀ {place : Place} {d : Datum} {a : α}, Spelled (schema α) d →
    decode place d = some a → Contained (schema α) (encode a) d

instance : FaithfulCodec String where
  contained {place d a} _ h := by
    cases d with
    | text _ =>
      cases h
      exact .text a
    | _ => cases h

theorem mapM_eq_some {α β : Type} {f : α → Option β} {as : List α} {bs : List β}
    (h : as.mapM f = some bs) : bs.length = as.length ∧
      ∀ i (hb : i < bs.length) (ha : i < as.length), f as[i] = some bs[i] := by
  induction as generalizing bs with
  | nil =>
    cases h
    exact ⟨rfl, fun i hb => absurd hb (Nat.not_lt_zero i)⟩
  | cons a as ih =>
    simp only [List.mapM_cons, Option.pure_def, Option.bind_eq_bind, Option.bind_eq_some_iff,
      Option.some.injEq] at h
    obtain ⟨b, hb, bs, hbs, rfl⟩ := h
    obtain ⟨hlength, heach⟩ := ih hbs
    refine ⟨by simp [hlength], ?_⟩
    intro i hib hia
    cases i with
    | zero => exact hb
    | succ i => exact heach i (by simpa using hib) (by simpa using hia)

instance {α : Type} [Codec α] [Described α] [FaithfulCodec α] : FaithfulCodec (List α) where
  contained {place d as} hs h := by
    cases hs with
    | @array _ ds _ helements =>
      change ds.mapM (decode place) = some as at h
      obtain ⟨hlength, heach⟩ := mapM_eq_some h
      refine .array (by simpa using hlength) ?_
      intro i hi hi'
      rw [List.getElem_map]
      exact FaithfulCodec.contained (helements i hi') (heach i (by simpa using hi) hi')
    | _ => cases h

/-- A record whose known members are spelled out. -/
def Record.Spelled (r : Record) (fields : Fields) : Prop :=
  ∀ f ∈ fields, ∀ e, r.members.lookup f.1 = some e → SwiftManifest.Spelled f.2.2 e

namespace Record.Spelled

variable {α : Type} [Codec α] [Described α] [FaithfulCodec α] {fields : Fields} {r : Record}

theorem mono {part : Fields} (h : r.Spelled fields) (hpart : part ⊆ fields) : r.Spelled part :=
  fun f hf => h f (hpart hf)

theorem required (h : r.Spelled fields) {name : String}
    (hf : field name .required α ∈ fields) {a : α} (hread : r.required name = some a) :
    AllFound fields r.members [(name, encode a)] := by
  rw [required_eq] at hread
  cases hlookup : r.members.lookup name with
  | none => rw [hlookup] at hread; cases hread
  | some e =>
    rw [hlookup] at hread
    exact .single (.held hf hlookup (FaithfulCodec.contained (h _ hf e hlookup) hread))

theorem optional (h : r.Spelled fields) {name : String}
    (hf : field name .optional α ∈ fields) {o : Option α} (hread : r.optional name = some o) :
    AllFound fields r.members (optionalMember name o) := by
  cases o with
  | none => exact List.forall_mem_nil _
  | some a =>
    rw [optional_eq] at hread
    cases hlookup : r.members.lookup name with
    | none => rw [hlookup] at hread; cases hread
    | some e =>
      rw [hlookup] at hread
      have hdecode : decode r.place e = some a := by
        cases e with
        | null => cases hread
        | _ => simpa [optionalOf] using hread
      exact .single (.held hf hlookup (FaithfulCodec.contained (h _ hf e hlookup) hdecode))

theorem list (h : r.Spelled fields) {name : String}
    (hf : field name .list (List α) ∈ fields) {as : List α} (hread : r.list name = some as) :
    AllFound fields r.members (listMember name as) := by
  cases as with
  | nil => exact List.forall_mem_nil _
  | cons a as =>
    rw [list_eq] at hread
    cases hlookup : r.members.lookup name with
    | none => rw [hlookup] at hread; cases hread
    | some e =>
      rw [hlookup] at hread
      exact .single (.held hf hlookup (FaithfulCodec.contained (h _ hf e hlookup) hread))

/-- A list that is written even when it is empty. -/
theorem keptList (h : r.Spelled fields) {name : String}
    (hf : field name .keptList (List α) ∈ fields) {as : List α} (hread : r.list name = some as) :
    AllFound fields r.members [(name, encode as)] := by
  rw [list_eq] at hread
  cases hlookup : r.members.lookup name with
  | none =>
    rw [hlookup] at hread
    cases hread
    exact .single (.added hf hlookup)
  | some e =>
    rw [hlookup] at hread
    exact .single (.held hf hlookup (FaithfulCodec.contained (h _ hf e hlookup) hread))

end Record.Spelled

section Reading

variable {fields : Fields} {d : Datum} {place : Place} {r : Record}

theorem Spelled.ofObject (h : Spelled (.record fields) d) (hnodup : (names fields).Nodup)
    {known : List String} (hread : Record.ofObject? place known d = some r) :
    d = .object r.members ∧ r.Spelled fields := by
  cases h with
  | @object _ ms _ hmembers =>
    simp only [Record.ofObject?] at hread
    split at hread
    · cases hread
      refine ⟨rfl, ?_⟩
      intro f hf e he
      have hspelled := hmembers (f.1, e) (mem_of_lookup he)
      simpa [Schema.member, Schema.fieldsOf, fieldSchema, lookup_of_mem hnodup hf] using hspelled
    · cases hread
  | _ => cases hread

theorem Spelled.of (h : Spelled (.record fields) d) (hnodup : (names fields).Nodup)
    (hread : Record.of? place (names fields) d = some r) :
    d = .object r.members ∧ r.Spelled fields := by
  cases h with
  | array hrecord _ => cases hrecord
  | object hplain hmembers => exact Spelled.ofObject (.object hplain hmembers) hnodup hread
  | _ => cases hread

theorem variantName?_spelled {variants : List String} {variant : String}
    (h : Spelled .unread d) (hname : variantName? place variants d = some variant) :
    d = .text variant := by
  cases h with
  | text value =>
    simp only [variantName?] at hname
    split at hname
    · cases hname
      rfl
    · cases hname
  | _ => cases hname

/-- A tagged value is read from the members beside its tag, and what is found among them stands in
the whole value. -/
theorem Spelled.tagged {tag variant : String} {variants : List (String × Fields)} {rest : Datum}
    (h : Spelled (.tagged tag variants) d)
    (hread : tagged? place tag (variants.map Prod.fst) d = some (variant, rest)) :
    ∃ fields members, (variant, fields) ∈ variants ∧ rest = .object members ∧
      Spelled (.record fields) rest ∧
      ((tag :: names fields).Nodup → ∀ ms, AllFound fields members ms →
        Contained (.tagged tag variants) (.object (textMember tag variant :: ms)) d) := by
  cases h with
  | array hrecord _ => cases hrecord
  | @object _ ns _ hmembers =>
    rw [tagged?_object] at hread
    simp only [Option.bind_eq_bind, Option.bind_eq_some_iff, Option.pure_def, Option.some.injEq,
      Prod.mk.injEq] at hread
    obtain ⟨_, hvariant, _, hheld, hname, hrest⟩ := hread
    rw [hname] at hvariant
    rw [hrest] at hheld
    have hmem := variantFields_of_variantOf? hvariant
    have htag : ns.lookup tag = some (.text variant) := by
      obtain ⟨c, hlookup, hnamed⟩ := variantOf?_eq_some hvariant
      have hspelled : Spelled .unread c := by
        simpa [Schema.member, Schema.fieldsOf, fieldSchema] using
          hmembers _ (mem_of_lookup hlookup)
      rw [hlookup, variantName?_spelled hspelled hnamed]
    rw [htag] at hmem
    rcases held?_eq place (.object (ns.filter fun m => m.1 ≠ tag)) with hnone | hsome
    · rw [hnone] at hheld
      cases hheld
    · rw [hsome, Option.some.injEq] at hheld
      subst hheld
      refine ⟨_, _, hmem, rfl, .object ?_ ?_, fun hnodup ms => .tagged htag rfl hnodup⟩
      · intro _ _ _ hplain
        cases hplain
      · intro m hm
        obtain ⟨hm, hne⟩ := List.mem_filter.mp hm
        have hspelled := hmembers m hm
        have hne : m.1 ≠ tag := by simpa using hne
        simpa [Schema.member, Schema.fieldsOf, fieldSchema, lookup_cons_of_ne hne, htag]
          using hspelled
  | _ => cases hread

/-- An enumerated value is read from its name or from an object with its content. -/
theorem Spelled.enumerated {α : Type} {plain : String → Option α}
    {worded : String → String → Option α} {known : List String} {a : α}
    (h : Spelled (.enumerated known) d) (hread : enumerated? plain worded place d = some a)
    (hknown : ∀ name a, plain name = some a → name ∈ known) :
    (∃ name, d = .text name ∧ plain name = some a) ∨
      ∃ name value, d = .object [(name, .text value)] ∧ worded name value = some a := by
  cases h with
  | text name => exact .inl ⟨name, rfl, hread⟩
  | @object _ ms hplain _ =>
    rcases ms with _ | ⟨⟨name, content⟩, _ | ⟨_, _⟩⟩
    · cases hread
    · have hnone : plain name = none := by
        rw [Option.eq_none_iff_forall_ne_some]
        intro b hb
        exact hplain name content rfl (hknown name b hb)
      simp only [enumerated?, hnone] at hread
      cases content with
      | text value => exact .inr ⟨name, value, rfl, hread⟩
      | _ => cases hread
    · cases hread
  | _ => cases hread

end Reading

end SwiftManifest
