import SwiftManifest.Proofs.Datum.Textual
import SwiftManifest.Proofs.Json.Token
import Mathlib.Data.List.Forall2

/-! JSON texts of textual values read back, in either layout. Reading a container is the same for
elements and members; the two layouts differ in the blank between the parts only. -/

namespace SwiftManifest.Json

/-- The common shape of reading elements and members. -/
def readItems {α : Type} (readItem : Text → Option (α × Text)) (closing : Char) :
    Nat → Text → Option (List α × Text)
  | 0, _ => none
  | fuel + 1, cs => do
    let (a, cs) ← readItem cs
    match skipSpace cs with
    | ',' :: cs =>
      let (as, cs) ← readItems readItem closing fuel cs
      return (a :: as, cs)
    | c :: cs => if c = closing then return ([a], cs) else none
    | [] => none

def readMember (readValue : Text → Option (Datum × Text)) (cs : Text) :
    Option ((List Piece × Datum) × Text) := do
  let (name, cs) ← readName cs
  let (d, cs) ← readValue cs
  return ((name, d), cs)

theorem readElements_eq (readValue : Text → Option (Datum × Text)) (fuel : Nat) (cs : Text) :
    readElements readValue fuel cs = readItems readValue ']' fuel cs := by
  induction fuel generalizing cs with
  | zero => rfl
  | succ fuel ih =>
    simp only [readElements, readItems, ih]
    congr 1
    funext r
    rcases skipSpace r.2 with _ | ⟨c, cs⟩
    · rfl
    · by_cases hcomma : c = ',' <;> by_cases hclose : c = ']' <;> simp_all

theorem readMembers_eq (readValue : Text → Option (Datum × Text)) (fuel : Nat) (cs : Text) :
    readMembers readValue fuel cs = readItems (readMember readValue) '}' fuel cs := by
  induction fuel generalizing cs with
  | zero => rfl
  | succ fuel ih =>
    simp only [readMembers, readItems, readMember, ih, Option.bind_eq_bind, Option.bind_assoc,
      Option.pure_def, Option.bind_some]
    congr 1
    funext name
    congr 1
    funext r
    rcases skipSpace r.2 with _ | ⟨c, cs⟩
    · rfl
    · by_cases hcomma : c = ',' <;> by_cases hclose : c = '}' <;> simp_all

/-- `t` is read as `a` wherever it stands and whatever blank is in front of it. -/
def Reads {α : Type} (read : Text → Option (α × Text)) (t : Text) (a : α) : Prop :=
  ∀ gap, Blank gap → ∀ rest, read (gap ++ (t ++ rest)) = some (a, rest)

/-- The parts of a container behind its first one, each with a comma and some blank in front, and
the closing bracket. -/
def remainder (gap close : Text) (closing : Char) (ts : List Text) (rest : Text) : Text :=
  ts.flatMap (fun t => ',' :: (gap ++ t)) ++ (close ++ closing :: rest)

theorem readItems_remainder {α : Type} {readItem : Text → Option (α × Text)} {closing : Char}
    (hclosing : isSpace closing = false ∧ closing ≠ ',') {gap close : Text} (hgap : Blank gap)
    (hclose : Blank close) {ts : List Text} {as : List α}
    (hts : List.Forall₂ (Reads readItem) ts as) {t : Text} {a : α} (ht : Reads readItem t a)
    {pre : Text} (hpre : Blank pre) {fuel : Nat} (hfuel : ts.length < fuel) (rest : Text) :
    readItems readItem closing fuel (pre ++ (t ++ remainder gap close closing ts rest)) =
      some (a :: as, rest) := by
  rcases hclosing with ⟨hspace, hcomma⟩
  induction hts generalizing t a fuel pre with
  | nil =>
    obtain ⟨fuel, rfl⟩ := Nat.exists_eq_add_one_of_ne_zero (Nat.ne_zero_of_lt hfuel)
    have hend : skipSpace (close ++ closing :: rest) = closing :: rest := by
      rw [skipSpace_append hclose]
      simp [skipSpace, hspace]
    simp [readItems, remainder, ht pre hpre, hend]
  | @cons u b us bs hu _ ih =>
    obtain ⟨fuel, rfl⟩ := Nat.exists_eq_add_one_of_ne_zero (Nat.ne_zero_of_lt hfuel)
    have hnext := ih hu hgap (by simpa using hfuel)
    have hsplit : remainder gap close closing (u :: us) rest =
        ',' :: (gap ++ (u ++ remainder gap close closing us rest)) := by
      simp [remainder]
    simp [readItems, hsplit, ht pre hpre, skipSpace, isSpace, hnext]

theorem length_lt_remainder (gap close : Text) (closing : Char) (ts : List Text) (rest : Text) :
    ts.length < (remainder gap close closing ts rest).length := by
  induction ts with
  | nil =>
    simp only [remainder, List.flatMap_nil, List.length_append, List.length_cons, List.length_nil]
    omega
  | cons t ts ih =>
    simp only [remainder, List.flatMap_cons, List.length_append, List.length_cons] at ih ⊢
    omega

/-- What starts an element or a member: no blank, and no bracket that closes a container. -/
def Starts (t : Text) : Prop :=
  ∃ c cs, t = c :: cs ∧ isSpace c = false ∧ c ≠ ']' ∧ c ≠ '}'

theorem skipSpace_starts {gap t : Text} (hgap : Blank gap) (ht : Starts t) (cs : Text) :
    skipSpace (gap ++ (t ++ cs)) = t ++ cs := by
  rcases ht with ⟨c, u, rfl, hc, -, -⟩
  rw [skipSpace_append hgap]
  simp [skipSpace, hc]

theorem readArray_parts {rv : Text → Option (Datum × Text)} {gap close : Text} (hgap : Blank gap)
    (hclose : Blank close) {t : Text} {d : Datum} (ht : Reads rv t d) (hs : Starts t)
    {ts : List Text} {ds : List Datum} (hts : List.Forall₂ (Reads rv) ts ds) (rest : Text) :
    readArray rv (gap ++ (t ++ remainder gap close ']' ts rest)) =
      some (.array (d :: ds), rest) := by
  have hskip := skipSpace_starts hgap hs (remainder gap close ']' ts rest)
  have hfuel : ts.length < (t ++ remainder gap close ']' ts rest).length + 1 := by
    have hlen := length_lt_remainder gap close ']' ts rest
    simp only [List.length_append]
    omega
  have hclosing : isSpace ']' = false ∧ ']' ≠ ',' := by decide
  have hread := readItems_remainder hclosing hgap hclose hts ht blank_nil hfuel rest
  rcases hs with ⟨c, u, rfl, hc, hne, -⟩
  simp only [readArray, hskip]
  split
  · simp_all
  · rw [readElements_eq]
    simp_all

theorem readObject_parts {rv : Text → Option (Datum × Text)} {gap close : Text} (hgap : Blank gap)
    (hclose : Blank close) {t : Text} {m : List Piece × Datum} (ht : Reads (readMember rv) t m)
    (hs : Starts t) {ts : List Text} {ms : List (List Piece × Datum)}
    (hts : List.Forall₂ (Reads (readMember rv)) ts ms) (rest : Text) :
    readObject rv (gap ++ (t ++ remainder gap close '}' ts rest)) =
      some (objectOf (m :: ms), rest) := by
  have hskip := skipSpace_starts hgap hs (remainder gap close '}' ts rest)
  have hfuel : ts.length < (t ++ remainder gap close '}' ts rest).length + 1 := by
    have hlen := length_lt_remainder gap close '}' ts rest
    simp only [List.length_append]
    omega
  have hclosing : isSpace '}' = false ∧ '}' ≠ ',' := by decide
  have hread := readItems_remainder hclosing hgap hclose hts ht blank_nil hfuel rest
  rcases hs with ⟨c, u, rfl, hc, -, hne⟩
  simp only [readObject, hskip]
  split
  · simp_all
  · rw [readMembers_eq]
    simp_all

theorem compactElements_eq (ds : List Datum) : compactElements ds = ds.map compact := by
  induction ds with
  | nil => rfl
  | cons d ds ih => simp [compactElements, ih]

theorem compactMembers_eq (ms : List (String × Datum)) :
    compactMembers ms = ms.map fun m => string m.1 ++ ':' :: compact m.2 := by
  induction ms with
  | nil => rfl
  | cons m ms ih => simp [compactMembers, ih]

theorem prettyElements_eq (level : Nat) (ds : List Datum) :
    prettyElements level ds = ds.map (prettyAt level) := by
  induction ds with
  | nil => rfl
  | cons d ds ih => simp [prettyElements, ih]

theorem prettyMembers_eq (level : Nat) (ms : List (String × Datum)) :
    prettyMembers level ms = ms.map fun m => string m.1 ++ ':' :: ' ' :: prettyAt level m.2 := by
  induction ms with
  | nil => rfl
  | cons m ms ih => simp [prettyMembers, ih]

/-- Parts between brackets, with `gap` in front of every part and `close` before the closing
bracket. -/
def enclosed (gap close : Text) (opening closing : Char) : List Text → Text → Text
  | [], rest => opening :: closing :: rest
  | t :: ts, rest => opening :: (gap ++ (t ++ remainder gap close closing ts rest))

theorem compact_enclosed (opening closing : Char) (ts : List Text) (rest : Text) :
    opening :: joined "," ts ++ [closing] ++ rest = enclosed [] [] opening closing ts rest := by
  have hjoin : ∀ t us, joined "," (t :: us) = t ++ us.flatMap (',' :: ·) := by
    intro t us
    induction us generalizing t with
    | nil => simp [joined]
    | cons u us ih => simp_all [joined, List.intercalate_cons_cons]
  cases ts with
  | nil => simp [enclosed, joined]
  | cons t ts => simp [enclosed, hjoin, remainder]

theorem block_enclosed (level : Nat) (opening closing : Char) (ts : List Text) (rest : Text) :
    block level opening closing ts ++ rest =
      enclosed ('\n' :: margin (level + 1)) ('\n' :: margin level) opening closing ts rest := by
  have hjoin : ∀ t us, joined ",\n" (t :: us) = t ++ us.flatMap ([',', '\n'] ++ ·) := by
    intro t us
    induction us generalizing t with
    | nil => simp [joined]
    | cons u us ih => simp_all [joined, List.intercalate_cons_cons]
  cases ts with
  | nil => simp [enclosed, block]
  | cons t ts => simp [enclosed, block, hjoin, remainder, List.flatMap_map]

theorem readValue_array {room : Nat} {gap close : Text} (hgap : Blank gap) (hclose : Blank close)
    {ts : List Text} (hs : ∀ t ∈ ts, Starts t) {ds : List Datum}
    (hts : List.Forall₂ (Reads (readValue room)) ts ds) (rest : Text) :
    readValue (room + 1) (enclosed gap close '[' ']' ts rest) = some (.array ds, rest) := by
  cases hts with
  | nil => simp [enclosed, readValue, skipSpace, isSpace, readArray]
  | cons ht hts =>
    have hread := readArray_parts hgap hclose ht (hs _ (by simp)) hts rest
    simpa [enclosed, readValue, skipSpace, isSpace] using hread

theorem objectOf_named (ms : List (String × Datum)) :
    objectOf (ms.map fun m => (m.1.toList.map pieceOf, m.2)) = .object ms := by
  have hnames : (ms.map fun m => (m.1.toList.map pieceOf, m.2)).mapM
      (fun m => (assemble m.1).map (String.ofList ·, m.2)) = some ms := by
    induction ms with
    | nil => rfl
    | cons m ms ih =>
      simp only [List.map_cons, List.mapM_cons, ih, assemble_pieces]
      simp
  rw [objectOf]
  simp only [hnames]

theorem reads_member {rv : Text → Option (Datum × Text)} {sp t : Text} (hsp : Blank sp)
    (name : String) {d : Datum} (ht : Reads rv t d) :
    Reads (readMember rv) (string name ++ ':' :: (sp ++ t)) (name.toList.map pieceOf, d) := by
  intro gap hgap rest
  have hname := readName_string name (sp ++ (t ++ rest))
  simp only [readMember, List.append_assoc, List.cons_append, readName_append hgap, hname]
  simp [ht sp hsp rest]

theorem readValue_object {room : Nat} {gap close sp : Text} (hgap : Blank gap)
    (hclose : Blank close) (hsp : Blank sp) {write : Datum → Text} {ms : List (String × Datum)}
    (hms : ∀ m ∈ ms, Reads (readValue room) (write m.2) m.2) (rest : Text) :
    readValue (room + 1) (enclosed gap close '{' '}'
      (ms.map fun m => string m.1 ++ ':' :: (sp ++ write m.2)) rest) = some (.object ms, rest) := by
  have hstart : ∀ m : String × Datum, Starts (string m.1 ++ ':' :: (sp ++ write m.2)) :=
    fun m => ⟨'"', _, rfl, by decide, by decide, by decide⟩
  have hread : ∀ ms' : List (String × Datum), (∀ m ∈ ms', Reads (readValue room) (write m.2) m.2) →
      List.Forall₂ (Reads (readMember (readValue room)))
        (ms'.map fun m => string m.1 ++ ':' :: (sp ++ write m.2))
        (ms'.map fun m => (m.1.toList.map pieceOf, m.2)) := by
    intro ms' h
    rw [List.forall₂_map_left_iff, List.forall₂_map_right_iff, List.forall₂_same]
    intro m hm
    exact reads_member hsp m.1 (h m hm)
  cases ms with
  | nil => simp [enclosed, readValue, skipSpace, isSpace, readObject]
  | cons m ms =>
    have hparts := readObject_parts hgap hclose (reads_member hsp m.1 (hms m (by simp)))
      (hstart m) (hread ms fun m' hm => hms m' (by simp [hm])) rest
    rw [← List.map_cons (f := fun m : String × Datum => (m.1.toList.map pieceOf, m.2)),
      objectOf_named] at hparts
    simpa [enclosed, readValue, skipSpace, isSpace] using hparts

theorem reads_of_rest {room : Nat} {t : Text} {d : Datum}
    (h : ∀ rest, readValue room (t ++ rest) = some (d, rest)) : Reads (readValue room) t d :=
  fun gap hgap rest => by rw [readValue_append hgap, h]

theorem starts_compact {n : Nat} {d : Datum} (h : d.Textual n) : Starts (compact d) := by
  cases h with
  | text value => exact ⟨'"', _, rfl, by decide, by decide, by decide⟩
  | array _ => exact ⟨'[', _, rfl, by decide, by decide, by decide⟩
  | object _ => exact ⟨'{', _, rfl, by decide, by decide, by decide⟩

/-- A value written on one line is read back, whatever follows it. -/
theorem readValue_compact {n : Nat} {d : Datum} (h : d.Textual n) {room : Nat} (hroom : n ≤ room)
    (rest : Text) : readValue room (compact d ++ rest) = some (d, rest) := by
  induction h generalizing room rest with
  | text value => exact readValue_string room value rest
  | @array n ds hds ih =>
    obtain ⟨room, rfl⟩ := Nat.exists_eq_add_one_of_ne_zero (Nat.ne_zero_of_lt hroom)
    rw [compact, compact_enclosed, compactElements_eq]
    refine readValue_array blank_nil blank_nil ?_ ?_ rest
    · simpa using fun d hd => starts_compact (hds d hd)
    · rw [List.forall₂_map_left_iff, List.forall₂_same]
      intro d hd
      exact reads_of_rest (ih d hd (by omega))
  | @object n ms hms ih =>
    obtain ⟨room, rfl⟩ := Nat.exists_eq_add_one_of_ne_zero (Nat.ne_zero_of_lt hroom)
    rw [compact, compact_enclosed, compactMembers_eq]
    exact readValue_object blank_nil blank_nil blank_nil
      (fun m hm => reads_of_rest (ih m hm (by omega))) rest

theorem blank_margin (level : Nat) : Blank ('\n' :: margin level) := by
  intro c hc
  simp only [margin, List.mem_cons, List.mem_replicate] at hc
  rcases hc with rfl | ⟨-, rfl⟩ <;> rfl

theorem starts_pretty {n : Nat} {d : Datum} (h : d.Textual n) (level : Nat) :
    Starts (prettyAt level d) := by
  have hblock : ∀ opening closing ts, ∃ cs, block level opening closing ts = opening :: cs := by
    intro opening closing ts
    unfold block
    split <;> exact ⟨_, rfl⟩
  cases h with
  | text value => exact ⟨'"', _, rfl, by decide, by decide, by decide⟩
  | array _ =>
    obtain ⟨cs, hcs⟩ := hblock '[' ']' _
    exact ⟨'[', cs, hcs, by decide, by decide, by decide⟩
  | object _ =>
    obtain ⟨cs, hcs⟩ := hblock '{' '}' _
    exact ⟨'{', cs, hcs, by decide, by decide, by decide⟩

/-- A value written with one member to a line is read back, whatever follows it. -/
theorem readValue_pretty {n : Nat} {d : Datum} (h : d.Textual n) {room : Nat} (hroom : n ≤ room)
    (level : Nat) (rest : Text) : readValue room (prettyAt level d ++ rest) = some (d, rest) := by
  induction h generalizing room level rest with
  | text value => exact readValue_string room value rest
  | @array n ds hds ih =>
    obtain ⟨room, rfl⟩ := Nat.exists_eq_add_one_of_ne_zero (Nat.ne_zero_of_lt hroom)
    rw [prettyAt, block_enclosed, prettyElements_eq]
    refine readValue_array (blank_margin _) (blank_margin _) ?_ ?_ rest
    · simpa using fun d hd => starts_pretty (hds d hd) (level + 1)
    · rw [List.forall₂_map_left_iff, List.forall₂_same]
      intro d hd
      exact reads_of_rest (ih d hd (by omega) (level + 1))
  | @object n ms hms ih =>
    obtain ⟨room, rfl⟩ := Nat.exists_eq_add_one_of_ne_zero (Nat.ne_zero_of_lt hroom)
    rw [prettyAt, block_enclosed, prettyMembers_eq]
    have hspace : Blank [' '] := by simp [Blank, isSpace]
    exact readValue_object (blank_margin _) (blank_margin _) hspace
      (fun m hm => reads_of_rest (ih m hm (by omega) (level + 1))) rest

theorem read_compact {n : Nat} {d : Datum} (h : d.Textual n) (hn : n ≤ nestingLimit) :
    read (compact d) = some d := by
  have hread := readValue_compact h hn []
  rw [List.append_nil] at hread
  rw [read, hread]
  rfl

theorem read_pretty {n : Nat} {d : Datum} (h : d.Textual n) (hn : n ≤ nestingLimit) :
    read (pretty d) = some d := by
  have hread := readValue_pretty h hn 0 []
  rw [List.append_nil] at hread
  rw [read, pretty, hread]
  rfl

end SwiftManifest.Json
