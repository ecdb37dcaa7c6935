import SwiftManifest.Proofs.Text.Lines
import Mathlib.Logic.Function.Iterate

/-! Indentation and how it is undone. Whatever line ends a text has, indenting it keeps the number of
its lines. Taken back, it gives the text itself just when line feeds only separate lines there. -/

namespace SwiftManifest

/-- The text with `n` tabs less in front of each of its lines, if every line has as many. -/
def outdent? (n : Nat) (t : Text) : Option Text :=
  ((lines t).mapM (List.dropPrefix? · (List.replicate n '\t'))).map (joined "\n")

theorem mapM_dropPrefix?_eq_some_iff {p : Text} {ls ls' : List Text} :
    ls.mapM (List.dropPrefix? · p) = some ls' ↔ ls = ls'.map (p ++ ·) := by
  induction ls generalizing ls' with
  | nil => cases ls' <;> simp
  | cons l ls ih =>
    cases ls' with
    | nil => simp [List.mapM_cons, Option.bind_eq_some_iff]
    | cons l' ls' =>
      simp [List.mapM_cons, Option.bind_eq_some_iff, List.dropPrefix?_eq_some_iff, ih]

theorem outdent?_eq_some_iff {n : Nat} {t u : Text} :
    outdent? n t = some u ↔
      ∃ ls, lines t = ls.map (List.replicate n '\t' ++ ·) ∧ joined "\n" ls = u := by
  simp [outdent?, Option.map_eq_some_iff, mapM_dropPrefix?_eq_some_iff]

/-- With tabs in front, as many lines are read back, and each has its tab. -/
theorem lines_joined_tabs {ls : List Text} (hfeed : ∀ l ∈ ls, '\n' ∉ l) :
    ∃ ls' : List Text, ls'.length = ls.length ∧
      lines (joined "\n" (ls.map ('\t' :: ·))) = ls'.map ('\t' :: ·) := by
  induction ls with
  | nil => exact ⟨[], rfl, rfl⟩
  | cons l ls ih =>
    rcases List.forall_mem_cons.mp hfeed with ⟨hl, hls⟩
    have htab : '\n' ∉ '\t' :: l := by simpa using hl
    cases ls with
    | nil => exact ⟨[l], rfl, by simpa [joined] using lines_line htab (by simp)⟩
    | cons m ms =>
      obtain ⟨ls', hlength, hlines⟩ := ih hls
      refine ⟨withoutReturn l :: ls', by simp [hlength], ?_⟩
      rw [List.map_cons, joined_feed_cons (by simp), lines_line_feed htab, hlines,
        withoutReturn_cons (by simp), List.map_cons]

theorem lines_indent (t : Text) :
    ∃ ls : List Text, ls.length = (lines t).length ∧ lines (indent t) = ls.map ('\t' :: ·) :=
  lines_joined_tabs (feed_not_mem_lines t)

theorem getLast?_indent_ne (t : Text) : (indent t).getLast? ≠ some '\n' := by
  have hfeed := feed_not_mem_lines t
  rw [indent]
  rcases (lines t).eq_nil_or_concat' with hnil | ⟨init, l, hlines⟩
  · simp [hnil, joined]
  · have hl : '\n' ∉ '\t' :: l := by simpa using hfeed l (by simp [hlines])
    rw [hlines, List.map_append, List.map_singleton, joined_concat]
    intro hlast
    rw [List.getLast?_append_of_ne_nil _ (by simp)] at hlast
    exact hl (List.mem_of_getLast? hlast)

namespace SeparateLines

variable {ls : List Text}

theorem tabs (h : SeparateLines ls) : SeparateLines (ls.map ('\t' :: ·)) := by
  induction h with
  | nil => exact .nil
  | last hfeed hne => exact .last (by simpa using hfeed) (by simp)
  | @cons l ls hfeed hreturn hne _ ih =>
    have hlast : ('\t' :: l).getLast? ≠ some '\r' := by
      rw [List.getLast?_cons]
      cases hl : l.getLast? <;> simp_all
    exact .cons (by simpa using hfeed) hlast (by simpa using hne) ih

theorem iterate_indent (h : SeparateLines ls) (n : Nat) :
    SeparateLines (ls.map (List.replicate n '\t' ++ ·)) ∧
      indent^[n] (joined "\n" ls) = joined "\n" (ls.map (List.replicate n '\t' ++ ·)) := by
  induction n with
  | zero => simpa using h
  | succ n ih =>
    obtain ⟨hls, hindent⟩ := ih
    have htabs : ls.map (List.replicate (n + 1) '\t' ++ ·) =
        (ls.map (List.replicate n '\t' ++ ·)).map ('\t' :: ·) := by
      simp [List.replicate_succ]
    rw [htabs, Function.iterate_succ_apply', hindent, indent, hls.lines_joined]
    exact ⟨hls.tabs, rfl⟩

end SeparateLines

theorem outdent?_iterate_indent {t : Text} (h : FeedSeparated t) (n : Nat) :
    outdent? n (indent^[n] t) = some t := by
  have hjoined := joined_lines_eq_iff.mpr h
  obtain ⟨hseparate, hindent⟩ := (SeparateLines.of_feedSeparated h).iterate_indent n
  rw [hjoined] at hindent
  rw [outdent?_eq_some_iff, hindent]
  exact ⟨lines t, hseparate.lines_joined, hjoined⟩

theorem length_joined_tabs (ls : List Text) :
    (joined "\n" (ls.map ('\t' :: ·))).length = (joined "\n" ls).length + ls.length := by
  induction ls with
  | nil => rfl
  | cons l ls ih =>
    cases ls with
    | nil => simp [joined]
    | cons m ms =>
      rw [List.map_cons, joined_feed_cons (by simp), joined_feed_cons (List.cons_ne_nil m ms)]
      simp only [List.length_append, List.length_cons, ih]
      omega

/-- What the lines of a text leave out does not come back with them. -/
theorem feedSeparated_of_outdent?_indent {t : Text} (h : outdent? 1 (indent t) = some t) :
    FeedSeparated t := by
  obtain ⟨ls, hlines, hjoined⟩ := outdent?_eq_some_iff.mp h
  obtain ⟨ls', hlength, hlines'⟩ := lines_indent t
  have hls : ls.length = ls'.length := by
    simpa using congrArg List.length (hlines.symm.trans hlines')
  have hindent : (indent t).length = (joined "\n" (lines t)).length + (lines t).length :=
    length_joined_tabs (lines t)
  have hback : (joined "\n" (lines (indent t))).length = t.length + ls.length := by
    rw [hlines, ← hjoined]
    exact length_joined_tabs ls
  have hle := (joined_lines_sublist (indent t)).length_le
  rw [← joined_lines_eq_iff]
  apply (joined_lines_sublist t).eq_of_length_le
  omega

/-- A text has as many lines when it is indented. Taking the tabs off again, however many, gives the
text back just when line feeds only separate lines in it. -/
theorem indent_reversible (t : Text) :
    (lines (indent t)).length = (lines t).length ∧
      (∀ l ∈ lines (indent t), ['\t'] <+: l) ∧
      (indent t).getLast? ≠ some '\n' ∧
      (FeedSeparated t ↔ ∀ n, outdent? n (indent^[n] t) = some t) := by
  obtain ⟨ls, hlength, hlines⟩ := lines_indent t
  refine ⟨?_, ?_, getLast?_indent_ne t, outdent?_iterate_indent, ?_⟩
  · rw [hlines, List.length_map, hlength]
  · rw [hlines, List.forall_mem_map]
    intro l _
    exact ⟨l, rfl⟩
  · intro h
    exact feedSeparated_of_outdent?_indent (h 1)

/-- A return before a line feed is lost. -/
example : outdent? 1 (indent ['a', '\r', '\n', '\r']) = some ['a', '\n', '\r'] := by decide

end SwiftManifest
