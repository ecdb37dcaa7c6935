import SwiftManifest.Proofs.Datum.Tabular
import SwiftManifest.Proofs.Toml.Token
import Mathlib.Data.List.Nodup

/-! TOML documents read back. A value is read from its text in front of anything but a quote, by
induction on how deep it nests; the statements of a document then build the table of its members. -/

namespace SwiftManifest.Toml

section Tables

/-- A table under construction whose members are all complete. -/
def entriesOf (ms : List (String × Datum)) : Entries := ms.map fun m => (m.1, .value m.2)

theorem toMembers_entriesOf (ms : List (String × Datum)) :
    Item.toMembers (entriesOf ms) = ms := by
  induction ms with
  | nil => rfl
  | cons m ms ih => exact congrArg (m :: ·) ih

theorem insert_entriesOf {ms : List (String × Datum)} {name : String} (d : Datum)
    (h : name ∉ ms.map Prod.fst) :
    Entries.insert { parents := [], name } d .declared (entriesOf ms) =
      some (entriesOf (ms ++ [(name, d)])) := by
  have halter : ∀ change : Option Item → Option Item, change none = some (.value d) →
      Entries.alter name change (entriesOf ms) = some (entriesOf (ms ++ [(name, d)])) := by
    intro change hchange
    induction ms with
    | nil => simp [entriesOf, Entries.alter, hchange]
    | cons m ms ih =>
      simp only [List.map_cons, List.mem_cons, not_or] at h
      have hrest := ih h.2
      simp only [entriesOf, List.map_cons] at hrest ⊢
      simp [Entries.alter, Ne.symm h.1, hrest]
  exact halter _ rfl

theorem nodup_snoc {ms ns : List (String × Datum)} {name : String} {d : Datum}
    (h : ((ms ++ (name, d) :: ns).map Prod.fst).Nodup) :
    name ∉ ms.map Prod.fst ∧ ((ms ++ [(name, d)] ++ ns).map Prod.fst).Nodup := by
  constructor
  · intro hmem
    rw [List.map_append, List.map_cons] at h
    exact List.disjoint_of_nodup_append h hmem List.mem_cons_self
  · rwa [List.append_assoc]

theorem insertAll_entriesOf {ms ns : List (String × Datum)}
    (h : ((ms ++ ns).map Prod.fst).Nodup) :
    (ns.map fun m => (({ parents := [], name := m.1 } : KeyPath), m.2)).foldlM
      (fun entries (key, d) => Entries.insert key d .declared entries) (entriesOf ms) =
      some (entriesOf (ms ++ ns)) := by
  induction ns generalizing ms with
  | nil => simp
  | cons m ns ih =>
    obtain ⟨name, d⟩ := m
    obtain ⟨habsent, hnodup⟩ := nodup_snoc h
    have hrest := ih hnodup
    rw [List.append_assoc] at hrest
    rw [List.map_cons, List.foldlM_cons]
    simp only [insert_entriesOf d habsent]
    exact hrest

theorem tableOf?_pairs {ms : List (String × Datum)} (h : (ms.map Prod.fst).Nodup) :
    tableOf? (ms.map fun m => ({ parents := [], name := m.1 }, m.2)) = some (.object ms) := by
  have hnodup : (([] ++ ms).map Prod.fst).Nodup := h
  have hall := insertAll_entriesOf hnodup
  rw [tableOf?]
  simp only [entriesOf, List.map_nil, List.nil_append] at hall
  rw [hall, Option.map_some]
  exact congrArg (fun l => some (Datum.object l)) (toMembers_entriesOf ms)

theorem build_pairs {ms ns : List (String × Datum)} (h : ((ms ++ ns).map Prod.fst).Nodup) :
    build [] (entriesOf ms) (ns.map fun m => .pair { parents := [], name := m.1 } m.2) =
      some (entriesOf (ms ++ ns)) := by
  induction ns generalizing ms with
  | nil => simp [build]
  | cons m ns ih =>
    obtain ⟨name, d⟩ := m
    obtain ⟨habsent, hnodup⟩ := nodup_snoc h
    have hrest := ih hnodup
    have hinsert : Entries.insertAt [] { parents := [], name } d (entriesOf ms) =
        some (entriesOf (ms ++ [(name, d)])) := insert_entriesOf d habsent
    rw [List.append_assoc] at hrest
    rw [List.map_cons, build, hinsert]
    exact hrest

end Tables

section Values

/-- `t` is read as `d` in front of anything but a quote. -/
def Reads (read : Text → Option (Datum × Text)) (t : Text) (d : Datum) : Prop :=
  ∀ rest, NoQuote rest → read (t ++ rest) = some (d, rest)

/-- What the text of a value starts with: nothing that is passed over, and no closing bracket. -/
def Opens (t : Text) : Prop := Solid t ∧ ∃ c cs, t = c :: cs ∧ c ≠ ']'

theorem opens_inline {n : Nat} {d : Datum} (h : d.Textual n) : Opens (inline d) := by
  cases h with
  | text value => exact ⟨⟨'"', _, rfl, by decide⟩, '"', _, rfl, by decide⟩
  | array _ => exact ⟨⟨'[', _, rfl, by decide⟩, '[', _, rfl, by decide⟩
  | object _ => exact ⟨⟨'{', _, rfl, by decide⟩, '{', _, rfl, by decide⟩

/-- The parts of a container behind its first one, and its closing bracket. -/
def remainder (closing : Char) (ts : List Text) (rest : Text) : Text :=
  ts.flatMap (fun t => ',' :: ' ' :: t) ++ closing :: rest

theorem remainder_nil (closing : Char) (rest : Text) :
    remainder closing [] rest = closing :: rest := rfl

theorem remainder_cons (closing : Char) (t : Text) (ts : List Text) (rest : Text) :
    remainder closing (t :: ts) rest = ',' :: ' ' :: (t ++ remainder closing ts rest) := by
  simp [remainder]

theorem joined_remainder (closing : Char) (t : Text) (ts : List Text) (rest : Text) :
    joined ", " (t :: ts) ++ closing :: rest = t ++ remainder closing ts rest := by
  have hjoin : joined ", " (t :: ts) = t ++ ts.flatMap (fun t => ',' :: ' ' :: t) := by
    induction ts generalizing t with
    | nil => simp [joined]
    | cons u ts ih => simp_all [joined, List.intercalate_cons_cons]
  rw [hjoin, List.append_assoc, remainder]

theorem remainder_noQuote {closing : Char} (h : closing ≠ '"') (ts : List Text) (rest : Text) :
    NoQuote (remainder closing ts rest) := by
  intro cs
  cases ts with
  | nil => simp [remainder, h]
  | cons t ts => simp [remainder]

theorem length_le_remainder (closing : Char) (ts : List Text) (rest : Text) :
    ts.length ≤ (remainder closing ts rest).length := by
  induction ts with
  | nil => exact Nat.zero_le _
  | cons t ts ih =>
    rw [remainder_cons]
    simp only [List.length_cons, List.length_append]
    omega

theorem inlineElements_eq (ds : List Datum) : inlineElements ds = ds.map inline := by
  induction ds with
  | nil => rfl
  | cons d ds ih => simp [inlineElements, ih]

def memberText (m : String × Datum) : Text := key m.1 ++ ' ' :: '=' :: ' ' :: inline m.2

theorem inlineMembers_eq (ms : List (String × Datum)) : inlineMembers ms = ms.map memberText := by
  induction ms with
  | nil => rfl
  | cons m ms ih => simp [inlineMembers, memberText, ih]

variable {rv : Text → Option (Datum × Text)}

theorem readElements_remainder {d : Datum} {ds : List Datum}
    (hread : ∀ e ∈ d :: ds, Reads rv (inline e) e) (hopens : ∀ e ∈ d :: ds, Opens (inline e))
    {fuel : Nat} (hfuel : ds.length < fuel) (rest : Text) :
    readElements rv fuel (inline d ++ remainder ']' (ds.map inline) rest) =
      some (d :: ds, rest) := by
  have hfirst := hread d List.mem_cons_self _
    (remainder_noQuote (by decide : ']' ≠ '"') (ds.map inline) rest)
  induction ds generalizing d fuel with
  | nil =>
    obtain ⟨fuel, rfl⟩ := Nat.exists_eq_add_one_of_ne_zero (Nat.ne_zero_of_lt hfuel)
    have hclose : Solid (']' :: rest) := ⟨']', rest, rfl, by decide⟩
    rw [List.map_nil, remainder_nil] at hfirst ⊢
    simp only [readElements, hfirst, Option.bind_eq_bind, Option.bind_some,
      skipLines_solid hclose]
    rfl
  | cons e es ih =>
    obtain ⟨fuel, rfl⟩ := Nat.exists_eq_add_one_of_ne_zero (Nat.ne_zero_of_lt hfuel)
    have hnext := hread e (by simp) _
      (remainder_noQuote (by decide : ']' ≠ '"') (es.map inline) rest)
    have hrest := ih (fun e he => hread e (List.mem_cons_of_mem d he))
      (fun e he => hopens e (List.mem_cons_of_mem d he)) (by simpa using hfuel) hnext
    obtain ⟨hsolid, c, cs, hc, hne⟩ := hopens e (by simp)
    have hspace := skipLines_space (hsolid.append (remainder ']' (es.map inline) rest))
    have hcomma : Solid (',' :: ' ' :: (inline e ++ remainder ']' (es.map inline) rest)) :=
      ⟨',', _, rfl, by decide⟩
    rw [List.map_cons, remainder_cons] at hfirst ⊢
    simp only [readElements, hfirst, Option.bind_eq_bind, Option.bind_some,
      skipLines_solid hcomma, hspace]
    rw [hc, List.cons_append] at hrest ⊢
    simp [hne, hrest]

theorem readArray_inline {ds : List Datum} (hread : ∀ e ∈ ds, Reads rv (inline e) e)
    (hopens : ∀ e ∈ ds, Opens (inline e)) (rest : Text) :
    readArray rv (joined ", " (ds.map inline) ++ ']' :: rest) = some (.array ds, rest) := by
  cases ds with
  | nil =>
    have hclose : Solid (']' :: rest) := ⟨']', rest, rfl, by decide⟩
    simp only [readArray, List.map_nil, joined, List.intercalate_nil, List.nil_append,
      skipLines_solid hclose]
  | cons d ds =>
    obtain ⟨hsolid, c, cs, hc, hne⟩ := hopens d (by simp)
    have hskip := skipLines_solid (hsolid.append (remainder ']' (ds.map inline) rest))
    have hfuel : ds.length < (inline d ++ remainder ']' (ds.map inline) rest).length + 1 := by
      have hlength := length_le_remainder ']' (ds.map inline) rest
      rw [List.length_map] at hlength
      rw [List.length_append]
      omega
    have hall := readElements_remainder hread hopens hfuel rest
    rw [List.map_cons, joined_remainder, readArray, hskip]
    rw [hc, List.cons_append] at hall ⊢
    simpa [hne] using hall

section Tables

theorem memberText_append (m : String × Datum) (rest : Text) :
    memberText m ++ rest = key m.1 ++ ' ' :: '=' :: ' ' :: (inline m.2 ++ rest) := by
  simp [memberText]

theorem memberText_solid (m : String × Datum) : Solid (memberText m) :=
  (key_solid m.1).append _

theorem memberText_starts (m : String × Datum) :
    ∃ c cs, memberText m = c :: cs ∧ (c = '"' ∨ isBare c = true) := by
  obtain ⟨c, cs, hkey, hc⟩ := key_starts m.1
  exact ⟨c, _, by rw [memberText, hkey, List.cons_append], hc⟩

theorem starts_ne {c d : Char} (h : c = '"' ∨ isBare c = true) (hquote : d ≠ '"')
    (hbare : isBare d = false) : c ≠ d := by
  rcases h with rfl | h
  · exact Ne.symm hquote
  · exact isBare_ne h hbare

theorem readPair_member {m : String × Datum} (hread : Reads rv (inline m.2) m.2)
    (hopens : Opens (inline m.2)) {cs rest : Text} (hcs : skipBlank cs = memberText m ++ rest)
    (hrest : NoQuote rest) :
    readPair rv cs = some ({ parents := [], name := m.1 }, m.2, rest) := by
  rw [memberText_append] at hcs
  simp only [readPair, readKey_key m.1 hcs, Option.bind_eq_bind, Option.bind_some,
    skipBlank_space (hopens.1.append rest), hread rest hrest]
  rfl

theorem readPairs_remainder {m : String × Datum} {ms : List (String × Datum)}
    (hread : ∀ n ∈ m :: ms, Reads rv (inline n.2) n.2)
    (hopens : ∀ n ∈ m :: ms, Opens (inline n.2)) {fuel : Nat} (hfuel : ms.length < fuel)
    {cs rest : Text} (hcs : skipBlank cs = memberText m ++ remainder '}' (ms.map memberText) rest) :
    readPairs rv fuel cs =
      some ((m :: ms).map fun n => ({ parents := [], name := n.1 }, n.2), rest) := by
  have hpair := readPair_member (hread m (by simp)) (hopens m (by simp)) hcs
    (remainder_noQuote (by decide) _ rest)
  induction ms generalizing m fuel cs with
  | nil =>
    obtain ⟨fuel, rfl⟩ := Nat.exists_eq_add_one_of_ne_zero (Nat.ne_zero_of_lt hfuel)
    have hclose : Solid ('}' :: rest) := ⟨'}', rest, rfl, by decide⟩
    rw [List.map_nil, remainder_nil] at hpair
    simp only [readPairs, hpair, Option.bind_eq_bind, Option.bind_some, skipBlank_solid hclose]
    rfl
  | cons n ms ih =>
    obtain ⟨fuel, rfl⟩ := Nat.exists_eq_add_one_of_ne_zero (Nat.ne_zero_of_lt hfuel)
    have hspace := skipBlank_space
      ((memberText_solid n).append (remainder '}' (ms.map memberText) rest))
    have hnext := readPair_member (hread n (by simp)) (hopens n (by simp)) hspace
      (remainder_noQuote (by decide) _ rest)
    have hrest := ih (fun k hk => hread k (List.mem_cons_of_mem m hk))
      (fun k hk => hopens k (List.mem_cons_of_mem m hk)) (by simpa using hfuel) hspace hnext
    have hcomma : Solid (',' :: ' ' :: (memberText n ++ remainder '}' (ms.map memberText) rest)) :=
      ⟨',', _, rfl, by decide⟩
    rw [List.map_cons, remainder_cons] at hpair
    simp only [readPairs, hpair, Option.bind_eq_bind, Option.bind_some, skipBlank_solid hcomma,
      hrest]
    rfl

theorem readInlineTable_inline {ms : List (String × Datum)} (hnodup : (ms.map Prod.fst).Nodup)
    (hread : ∀ m ∈ ms, Reads rv (inline m.2) m.2) (hopens : ∀ m ∈ ms, Opens (inline m.2))
    (rest : Text) :
    readInlineTable rv (joined ", " (ms.map memberText) ++ '}' :: rest) =
      some (.object ms, rest) := by
  cases ms with
  | nil =>
    have hclose : Solid ('}' :: rest) := ⟨'}', rest, rfl, by decide⟩
    simp only [readInlineTable, List.map_nil, joined, List.intercalate_nil, List.nil_append,
      skipBlank_solid hclose]
  | cons m ms =>
    have hskip := skipBlank_solid
      ((memberText_solid m).append (remainder '}' (ms.map memberText) rest))
    have hfuel : ms.length <
        (memberText m ++ remainder '}' (ms.map memberText) rest).length + 1 := by
      have hlength := length_le_remainder '}' (ms.map memberText) rest
      rw [List.length_map] at hlength
      rw [List.length_append]
      omega
    have hall := readPairs_remainder hread hopens hfuel hskip
    obtain ⟨c, cs, hc, hstart⟩ := memberText_starts m
    rw [List.map_cons, joined_remainder, readInlineTable, hskip]
    rw [hc, List.cons_append] at hall ⊢
    split
    · rename_i heq
      exact absurd (List.cons.inj heq).1 (starts_ne hstart (by decide) rfl)
    · rw [hall]
      simp only [Option.bind_eq_bind, Option.bind_some, tableOf?_pairs hnodup]
      rfl

end Tables

/-- A value on one line is read back in front of anything but a quote. -/
theorem readValue_inline {n : Nat} {d : Datum} (h : d.Textual n) (htabular : d.Tabular)
    {room : Nat} (hroom : n ≤ room) : Reads (readValue room) (inline d) d := by
  induction h generalizing room with
  | text value =>
    intro rest hrest
    have hread := readString_string value hrest
    cases room <;> simp_all [inline, string, readValue, readScalar]
  | @array n ds hds ih =>
    intro rest _
    obtain ⟨room, rfl⟩ := Nat.exists_eq_add_one_of_ne_zero (Nat.ne_zero_of_lt hroom)
    cases htabular with
    | array helements =>
      have hread : ∀ d ∈ ds, Reads (readValue room) (inline d) d :=
        fun d hd => ih d hd (helements d hd) (by omega)
      have hall := readArray_inline hread (fun d hd => opens_inline (hds d hd)) rest
      rw [inline, inlineElements_eq]
      simpa [readValue] using hall
  | @object n ms hms ih =>
    intro rest _
    obtain ⟨room, rfl⟩ := Nat.exists_eq_add_one_of_ne_zero (Nat.ne_zero_of_lt hroom)
    cases htabular with
    | object hnodup hmembers =>
      have hread : ∀ m ∈ ms, Reads (readValue room) (inline m.2) m.2 :=
        fun m hm => ih m hm (hmembers m hm) (by omega)
      have hall := readInlineTable_inline hnodup hread (fun m hm => opens_inline (hms m hm)) rest
      rw [inline, inlineMembers_eq]
      simpa [readValue] using hall

end Values

section Documents

theorem readStatement_member {n : Nat} {m : String × Datum} (h : m.2.Textual n)
    (htabular : m.2.Tabular) (hn : n ≤ nestingLimit) {rest : Text} (hrest : NoQuote rest) :
    readStatement (memberText m ++ rest) =
      some (.pair { parents := [], name := m.1 } m.2, rest) := by
  have hskip := skipBlank_solid ((memberText_solid m).append rest)
  have hpair := readPair_member (readValue_inline h htabular hn) (opens_inline h) hskip hrest
  obtain ⟨c, cs, hc, hstart⟩ := memberText_starts m
  have hbracket : c ≠ '[' := starts_ne hstart (by decide) rfl
  rw [hc, List.cons_append] at hpair ⊢
  simp [readStatement, hbracket, hpair]

theorem document_cons (m : String × Datum) (ms : List (String × Datum)) :
    document (m :: ms) = memberText m ++ '\n' :: document ms := by
  simp [document, inlineMembers, memberText]

theorem readStatements_document {n : Nat} {ms : List (String × Datum)}
    (h : ∀ m ∈ ms, m.2.Textual n) (htabular : ∀ m ∈ ms, m.2.Tabular) (hn : n ≤ nestingLimit)
    {fuel : Nat} (hfuel : ms.length < fuel) :
    readStatements fuel (document ms) =
      some (ms.map fun m => .pair { parents := [], name := m.1 } m.2) := by
  induction ms generalizing fuel with
  | nil =>
    obtain ⟨fuel, rfl⟩ := Nat.exists_eq_add_one_of_ne_zero (Nat.ne_zero_of_lt hfuel)
    rfl
  | cons m ms ih =>
    obtain ⟨fuel, rfl⟩ := Nat.exists_eq_add_one_of_ne_zero (Nat.ne_zero_of_lt hfuel)
    have hrest := ih (fun k hk => h k (List.mem_cons_of_mem m hk))
      (fun k hk => htabular k (List.mem_cons_of_mem m hk)) (by simpa using hfuel)
    have hline : NoQuote ('\n' :: document ms) := by
      intro cs
      simp
    have hstatement := readStatement_member (h m (by simp)) (htabular m (by simp)) hn hline
    have hskip := skipBlank_solid ((memberText_solid m).append ('\n' :: document ms))
    have htrailing : readTrailing ('\n' :: document ms) = some (document ms) := rfl
    obtain ⟨c, cs, hc, hstart⟩ := memberText_starts m
    have hcomment : ¬ (c = '#' ∨ c = '\n' ∨ c = '\r') := by
      rintro (rfl | rfl | rfl) <;> simp [isBare] at hstart
    rw [document_cons, readStatements, hskip]
    rw [hc, List.cons_append] at hstatement ⊢
    simp only [hcomment, if_false, hstatement, Option.bind_eq_bind, Option.bind_some, htrailing,
      hrest]
    rfl

theorem skipMark_document (ms : List (String × Datum)) : skipMark (document ms) = document ms := by
  cases ms with
  | nil => rfl
  | cons m ms =>
    obtain ⟨c, cs, hc, hstart⟩ := memberText_starts m
    have hmark : c ≠ '\uFEFF' := starts_ne hstart (by decide) (by decide)
    rw [document_cons, hc, List.cons_append]
    simp [skipMark, hmark]

theorem length_le_document (ms : List (String × Datum)) : ms.length ≤ (document ms).length := by
  induction ms with
  | nil => exact Nat.zero_le _
  | cons m ms ih =>
    rw [document_cons]
    simp only [List.length_cons, List.length_append]
    omega

/-- A document reads as the object of its members. -/
theorem read_document {n : Nat} {ms : List (String × Datum)}
    (h : (Datum.object ms).Textual (n + 1)) (htabular : (Datum.object ms).Tabular)
    (hn : n ≤ nestingLimit) : read (document ms) = some (.object ms) := by
  cases h with
  | object hms =>
    cases htabular with
    | object hnodup hmembers =>
      have hfuel : ms.length < (document ms).length + 1 :=
        Nat.lt_succ_of_le (length_le_document ms)
      have hstatements := readStatements_document hms hmembers hn hfuel
      have hnodup : (([] ++ ms).map Prod.fst).Nodup := hnodup
      have hbuild := build_pairs hnodup
      have hentries : entriesOf [] = [] := rfl
      rw [hentries, List.nil_append] at hbuild
      rw [read, skipMark_document, hstatements]
      simp only [Option.bind_eq_bind, Option.bind_some, hbuild, toMembers_entriesOf]
      rfl

end Documents

end SwiftManifest.Toml
