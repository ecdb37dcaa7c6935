import SwiftManifest.Text.Call
import Mathlib.Data.List.Basic

/-! Blocks of text, and how they are indented. A block is not empty and does not end with any part of
a line end, so entries that are blocks can be indented one by one as well as all together. -/

namespace SwiftManifest

/-- A text in which every line but the first is one tab further right. A carriage return goes with
the line feed behind it. -/
def moved : Text → Text
  | [] => []
  | '\n' :: cs => '\n' :: '\t' :: moved cs
  | '\r' :: '\n' :: cs => '\n' :: '\t' :: moved cs
  | c :: cs => c :: moved cs

/-- A text may be cut anywhere but inside a line end. -/
theorem moved_append {t u : Text} (h : t.getLast? = some '\r' → u.head? ≠ some '\n') :
    moved (t ++ u) = moved t ++ moved u := by
  fun_induction moved t with
  | case1 => rfl
  | case2 cs ih =>
    have hcs : moved (cs ++ u) = moved cs ++ moved u := by
      apply ih
      intro hlast
      exact h (by simp [List.getLast?_cons, hlast])
    simp [moved, hcs]
  | case3 cs ih =>
    have hcs : moved (cs ++ u) = moved cs ++ moved u := by
      apply ih
      intro hlast
      exact h (by simp [List.getLast?_cons, hlast])
    simp [moved, hcs]
  | case4 c cs hfeed hreturn ih =>
    have hcs : moved (cs ++ u) = moved cs ++ moved u := by
      apply ih
      intro hlast
      exact h (by simp [List.getLast?_cons, hlast])
    -- only at the seam could the return meet a feed that it did not meet before
    have hseam : ∀ rest, c = '\r' → cs ++ u = '\n' :: rest → False := by
      intro rest hc heq
      cases cs with
      | nil => exact h (by simp [hc]) (by simp [show u = '\n' :: rest from heq])
      | cons d ds => exact hreturn ds hc (by rw [(List.cons.inj heq).1])
    rw [List.cons_append, moved.eq_4 c (cs ++ u) hfeed hseam, hcs, List.cons_append]

section Indent

variable {c : Char} {t : Text}

theorem indent_feed (h : t ≠ []) : indent ('\n' :: t) = '\t' :: '\n' :: indent t := by
  have hlines : (lines t).map ('\t' :: ·) ≠ [] := by simpa [lines_eq_nil_iff] using h
  simp [indent, lines, joined, List.intercalate_cons_of_ne_nil hlines]

theorem indent_return_feed (t : Text) : indent ('\r' :: '\n' :: t) = indent ('\n' :: t) := by
  simp [indent, lines]

theorem lines_cons (hfeed : c ≠ '\n') (hreturn : ∀ rest, c = '\r' → t = '\n' :: rest → False) :
    lines (c :: t) = (c :: (lines t).headD []) :: (lines t).tail := by
  rw [lines.eq_4 c t hfeed hreturn]
  cases lines t <;> rfl

/-- What stands in front of a line is moved with it. -/
theorem indent_cons (hfeed : c ≠ '\n') (hreturn : ∀ rest, c = '\r' → t = '\n' :: rest → False)
    {rest : Text} (ht : indent t = '\t' :: rest) : indent (c :: t) = '\t' :: c :: rest := by
  cases hlines : lines t with
  | nil => simp [indent, hlines, joined] at ht
  | cons l ls =>
    have hcons := lines_cons hfeed hreturn
    simp only [hlines, List.headD_cons, List.tail_cons] at hcons
    simp only [indent, hcons, hlines, joined, List.map_cons,
      List.intercalate_cons_cons_left] at ht ⊢
    rw [(List.cons.inj ht).2]

/-- Indentation without lines, for a text that does not end its last line. -/
theorem indent_eq_moved (hne : t ≠ []) (hlast : t.getLast? ≠ some '\n') :
    indent t = '\t' :: moved t := by
  fun_induction moved t with
  | case1 => exact absurd rfl hne
  | case2 cs ih =>
    have hcs : cs ≠ [] := by
      rintro rfl
      exact hlast rfl
    rw [indent_feed hcs, ih hcs (by rwa [List.getLast?_cons_of_ne_nil hcs] at hlast)]
  | case3 cs ih =>
    have hcs : cs ≠ [] := by
      rintro rfl
      exact hlast rfl
    rw [List.getLast?_cons_cons, List.getLast?_cons_of_ne_nil hcs] at hlast
    rw [indent_return_feed, indent_feed hcs, ih hcs hlast]
  | case4 c cs hfeed hreturn ih =>
    cases cs with
    | nil => simp [indent, lines_cons hfeed hreturn, lines, joined, moved]
    | cons d ds =>
      rw [List.getLast?_cons_cons] at hlast
      exact indent_cons hfeed hreturn (ih (List.cons_ne_nil d ds) hlast)

end Indent

/-- A text that can be put on lines of its own. -/
def Block (t : Text) : Prop := ∃ c ∈ t.getLast?, c ∉ ['\n', '\r']

/-- Decided by the last character alone. -/
instance (t : Text) : Decidable (Block t) :=
  Option.decidableExistsMem t.getLast?

namespace Block

variable {t u : Text}

theorem ne_nil (h : Block t) : t ≠ [] := by
  obtain ⟨c, hc, -⟩ := h
  rintro rfl
  simp at hc

theorem getLast?_ne (h : Block t) {d : Char} (hd : d ∈ ['\n', '\r']) : t.getLast? ≠ some d := by
  obtain ⟨c, hc, hend⟩ := h
  intro heq
  obtain rfl : c = d := Option.some.inj (Option.mem_def.mp hc ▸ heq)
  exact hend hd

/-- Only the end of a text matters. -/
theorem append_left (h : Block u) (t : Text) : Block (t ++ u) := by
  obtain ⟨c, hc, hend⟩ := h
  refine ⟨c, ?_, hend⟩
  rw [Option.mem_def] at hc ⊢
  rw [List.getLast?_append, hc, Option.some_or]

theorem cons (h : Block t) (c : Char) : Block (c :: t) :=
  h.append_left [c]

theorem moved_append (h : Block t) (u : Text) : moved (t ++ u) = moved t ++ moved u := by
  apply SwiftManifest.moved_append
  intro hlast
  exact absurd hlast (h.getLast?_ne (by decide))

theorem block_moved (h : Block t) : Block (moved t) := by
  obtain ⟨c, hc, hend⟩ := h
  obtain ⟨init, rfl⟩ := List.getLast?_eq_some_iff.mp (Option.mem_def.mp hc)
  obtain ⟨hfeed, -⟩ : c ≠ '\n' ∧ c ≠ '\r' := by simpa using hend
  have hlast : moved [c] = [c] := by
    rw [moved.eq_4 c [] hfeed (by simp), moved]
  rw [SwiftManifest.moved_append (by simpa using fun _ => hfeed), hlast]
  exact append_left ⟨c, rfl, hend⟩ _

theorem indent_eq (h : Block t) : indent t = '\t' :: moved t :=
  indent_eq_moved h.ne_nil (h.getLast?_ne (by decide))

theorem block_indent (h : Block t) : Block (indent t) := by
  rw [h.indent_eq]
  exact h.block_moved.cons '\t'

theorem indent_append (ht : Block t) (htu : Block (t ++ u)) :
    indent (t ++ u) = indent t ++ moved u := by
  rw [htu.indent_eq, ht.moved_append, ht.indent_eq, List.cons_append]

section FlatMap

variable {α : Type} {f : α → Text} {as : List α}

theorem append_flatMap (ht : Block t) (h : ∀ a ∈ as, Block (f a)) : Block (t ++ as.flatMap f) := by
  induction as generalizing t with
  | nil => simpa using ht
  | cons a as ih =>
    rcases List.forall_mem_cons.mp h with ⟨ha, has⟩
    rw [List.flatMap_cons, ← List.append_assoc]
    exact ih (ha.append_left t) has

theorem moved_flatMap (h : ∀ a ∈ as, Block (f a)) :
    moved (as.flatMap f) = as.flatMap fun a => moved (f a) := by
  induction as with
  | nil => rfl
  | cons a as ih =>
    rcases List.forall_mem_cons.mp h with ⟨ha, has⟩
    rw [List.flatMap_cons, ha.moved_append, ih has, List.flatMap_cons]

end FlatMap

end Block

/-! Entries with a comma and a line end between them. -/

theorem joined_cons (separator : String) (e : Text) (es : List Text) :
    joined separator (e :: es) = e ++ es.flatMap (separator.toList ++ ·) := by
  induction es generalizing e with
  | nil => simp [joined]
  | cons d ds ih =>
    rw [joined_cons_of_ne_nil separator e (List.cons_ne_nil d ds), ih, List.flatMap_cons,
      List.append_assoc]

theorem block_joined {es : List Text} (hne : es ≠ []) (h : ∀ e ∈ es, Block e)
    (separator : String) : Block (joined separator es) := by
  obtain ⟨e, es, rfl⟩ := List.exists_cons_of_ne_nil hne
  rcases List.forall_mem_cons.mp h with ⟨he, hes⟩
  rw [joined_cons]
  exact he.append_flatMap fun d hd => (hes d hd).append_left _

/-- Entries that are blocks may be indented before they are joined. -/
theorem indent_entries {es : List Text} (hne : es ≠ []) (h : ∀ e ∈ es, Block e) :
    indent (joined ",\n" es) = joined ",\n" (es.map indent) := by
  have hjoined := block_joined hne h ",\n"
  obtain ⟨e, es, rfl⟩ := List.exists_cons_of_ne_nil hne
  rcases List.forall_mem_cons.mp h with ⟨he, hes⟩
  have hrest : moved (es.flatMap (",\n".toList ++ ·)) =
      (es.map indent).flatMap (",\n".toList ++ ·) := by
    rw [Block.moved_flatMap fun d hd => (hes d hd).append_left _, List.flatMap_map]
    apply List.flatMap_congr
    intro d hd
    rw [(hes d hd).indent_eq]
    rfl
  rw [joined_cons] at hjoined ⊢
  rw [he.indent_append hjoined, hrest, List.map_cons, joined_cons]

/-- An entry that ends its own line leaves the comma behind it alone on the next one. -/
example : indent (joined ",\n" [['a', '\n'], ['b']]) ≠
    joined ",\n" [indent ['a', '\n'], indent ['b']] := by decide

theorem bracketedList_of_blocks {es : List Text} (hne : es ≠ []) (h : ∀ e ∈ es, Block e) :
    bracketedList es = '[' :: '\n' :: joined ",\n" (es.map indent) ++ ['\n', ']'] := by
  rw [bracketedList, if_neg (by simpa using hne), indent_entries hne h]

theorem callText_of_blocks (keyword : Text) {es : List Text} (hne : es ≠ [])
    (h : ∀ e ∈ es, Block e) :
    callText keyword es =
      keyword ++ '(' :: '\n' :: joined ",\n" (es.map indent) ++ ['\n', ')'] := by
  rw [callText, indent_entries hne h]

end SwiftManifest
