import SwiftManifest.Proofs.Text.Block
import Mathlib.Data.List.Infix

/-! The lines of a text, and the text that lines make with line feeds between them. Each gives the
other back where a line feed does nothing but separate two lines: no return goes with it, and a line
follows. -/

namespace SwiftManifest

section Joined

variable {l : Text} {ls : List Text}

theorem joined_feed_cons (h : ls ≠ []) : joined "\n" (l :: ls) = l ++ '\n' :: joined "\n" ls :=
  joined_cons_of_ne_nil "\n" l h

theorem joined_concat (separator : String) (ls : List Text) (l : Text) :
    joined separator (ls ++ [l]) = ls.flatMap (· ++ separator.toList) ++ l := by
  induction ls with
  | nil => simp [joined]
  | cons d ds ih =>
    rw [List.cons_append, joined_cons_of_ne_nil separator d (by simp), ih]
    simp

end Joined

theorem feed_not_mem_lines (t : Text) : ∀ line ∈ lines t, '\n' ∉ line := by
  fun_induction lines t with
  | case1 => simp
  | case2 cs ih =>
    simpa using ih
  | case3 cs ih => simpa using ih
  | case4 c cs hfeed _ hlines => simpa using Ne.symm hfeed
  | case5 c cs hfeed _ l ls hlines ih =>
    rw [hlines] at ih
    simpa [hfeed, Ne.symm hfeed] using ih

/-- A text in which line feeds only separate lines. -/
structure FeedSeparated (t : Text) : Prop where
  no_return_feed : ¬ ['\r', '\n'] <:+: t
  no_last_feed : t.getLast? ≠ some '\n'

instance (t : Text) : Decidable (FeedSeparated t) :=
  decidable_of_iff (¬ ['\r', '\n'] <:+: t ∧ t.getLast? ≠ some '\n')
    ⟨fun h => ⟨h.1, h.2⟩, fun h => ⟨h.no_return_feed, h.no_last_feed⟩⟩

section FeedSeparated

variable {c : Char} {t : Text}

theorem FeedSeparated.of_return_not_mem (hreturn : '\r' ∉ t) (hlast : t.getLast? ≠ some '\n') :
    FeedSeparated t where
  no_return_feed := fun h => hreturn (h.subset (by simp))
  no_last_feed := hlast

theorem feedSeparated_cons_iff : FeedSeparated (c :: t) ↔
    ¬ (c = '\r' ∧ t.head? = some '\n') ∧ ¬ (c = '\n' ∧ t = []) ∧ FeedSeparated t := by
  have hpair : ['\r', '\n'] <:+: c :: t ↔
      (c = '\r' ∧ t.head? = some '\n') ∨ ['\r', '\n'] <:+: t := by
    rw [List.infix_cons_iff, List.cons_prefix_cons, List.singleton_prefix_iff_head?_eq_some,
      eq_comm (a := '\r')]
  have hlast : (c :: t).getLast? = some '\n' ↔ (c = '\n' ∧ t = []) ∨ t.getLast? = some '\n' := by
    cases t <;> simp
  constructor
  · rintro ⟨hreturn, hfeed⟩
    rw [hpair, not_or] at hreturn
    rw [ne_eq, hlast, not_or] at hfeed
    exact ⟨hreturn.1, hfeed.1, hreturn.2, hfeed.2⟩
  · rintro ⟨hreturn, hfeed, ht⟩
    constructor
    · rw [hpair, not_or]
      exact ⟨hreturn, ht.no_return_feed⟩
    · rw [ne_eq, hlast, not_or]
      exact ⟨hfeed, ht.no_last_feed⟩

/-- The lines of a text leave out parts of its line ends, and nothing else. -/
theorem joined_lines_sublist (t : Text) : (joined "\n" (lines t)).Sublist t := by
  fun_induction lines t with
  | case1 => exact .refl _
  | case2 cs ih =>
    by_cases hcs : lines cs = []
    · simp [hcs, joined]
    · rw [joined_feed_cons hcs]
      exact ih.cons_cons '\n'
  | case3 cs ih =>
    by_cases hcs : lines cs = []
    · simp [hcs, joined]
    · rw [joined_feed_cons hcs]
      exact (ih.cons_cons '\n').cons '\r'
  | case4 c cs _ _ hlines => simp [joined]
  | case5 c cs _ _ l ls hlines ih =>
    rw [hlines] at ih
    rw [joined, List.intercalate_cons_cons_left, ← joined]
    exact ih.cons_cons c

theorem joined_lines_eq_iff : joined "\n" (lines t) = t ↔ FeedSeparated t := by
  fun_induction lines t with
  | case1 => exact ⟨fun _ => by decide, fun _ => rfl⟩
  | case2 cs ih =>
    rw [feedSeparated_cons_iff]
    by_cases hcs : cs = []
    · simp [hcs, lines, joined]
    · have hlines : lines cs ≠ [] := by rwa [ne_eq, lines_eq_nil_iff]
      simp [joined_feed_cons hlines, ih, hcs]
  | case3 cs ih =>
    -- the return is not among the lines
    rw [feedSeparated_cons_iff]
    by_cases hcs : lines cs = []
    · simp [hcs, joined]
    · simp [joined_feed_cons hcs]
  | case4 c cs hfeed _ hlines =>
    obtain rfl := lines_eq_nil_iff.mp hlines
    have hc : c ≠ '\n' := hfeed
    have hnil : FeedSeparated [] := by decide
    simp [feedSeparated_cons_iff, hc, hnil, joined]
  | case5 c cs hfeed hreturn l ls hlines ih =>
    have hc : c ≠ '\n' := hfeed
    have hhead : ¬ (c = '\r' ∧ cs.head? = some '\n') := by
      rintro ⟨hr, hhead⟩
      obtain ⟨rest, hcs⟩ := List.head?_eq_some_iff.mp hhead
      exact hreturn rest hr hcs
    rw [hlines] at ih
    rw [joined, List.intercalate_cons_cons_left, ← joined, List.cons.injEq, ih,
      feedSeparated_cons_iff]
    simp [hc, hhead]

end FeedSeparated

/-- A line without the return at its end, which goes with a line feed behind the line. -/
def withoutReturn (l : Text) : Text :=
  if l.getLast? = some '\r' then l.dropLast else l

section Line

variable {c : Char} {l : Text}

theorem withoutReturn_of_ne (h : l.getLast? ≠ some '\r') : withoutReturn l = l := if_neg h

theorem withoutReturn_cons (h : c = '\r' → l ≠ []) :
    withoutReturn (c :: l) = c :: withoutReturn l := by
  cases l with
  | nil =>
    have hc : c ≠ '\r' := fun hc => h hc rfl
    simp [withoutReturn, hc]
  | cons d ds =>
    simp only [withoutReturn, List.getLast?_cons_cons, List.dropLast_cons_cons]
    split <;> rfl

theorem lines_line (hfeed : '\n' ∉ l) (hne : l ≠ []) : lines l = [l] := by
  induction l with
  | nil => exact absurd rfl hne
  | cons c cs ih =>
    obtain ⟨hc, hcs⟩ : '\n' ≠ c ∧ '\n' ∉ cs := by simpa using hfeed
    have hreturn : ∀ rest, c = '\r' → cs = '\n' :: rest → False := by
      rintro rest - rfl
      simp at hcs
    rw [lines_cons (Ne.symm hc) hreturn]
    by_cases hnil : cs = []
    · rw [hnil]; rfl
    · rw [ih hcs hnil]; rfl

theorem lines_line_feed (hfeed : '\n' ∉ l) (t : Text) :
    lines (l ++ '\n' :: t) = withoutReturn l :: lines t := by
  induction l with
  | nil => rfl
  | cons c cs ih =>
    obtain ⟨hc, hcs⟩ : '\n' ≠ c ∧ '\n' ∉ cs := by simpa using hfeed
    by_cases hreturn : c = '\r' ∧ cs = []
    · obtain ⟨rfl, rfl⟩ := hreturn
      simp [lines, withoutReturn]
    · have hne : c = '\r' → cs ≠ [] := fun hr hnil => hreturn ⟨hr, hnil⟩
      have hseam : ∀ rest, c = '\r' → cs ++ '\n' :: t = '\n' :: rest → False := by
        intro rest hr heq
        obtain ⟨d, ds, rfl⟩ := List.exists_cons_of_ne_nil (hne hr)
        simp [(List.cons.inj heq).1] at hcs
      rw [List.cons_append, lines_cons (Ne.symm hc) hseam, ih hcs, withoutReturn_cons hne]
      rfl

end Line

/-- Lines that are read back from the text that they make. -/
inductive SeparateLines : List Text → Prop
  | nil : SeparateLines []
  | last {l : Text} : '\n' ∉ l → l ≠ [] → SeparateLines [l]
  | cons {l : Text} {ls : List Text} : '\n' ∉ l → l.getLast? ≠ some '\r' → ls ≠ [] →
      SeparateLines ls → SeparateLines (l :: ls)

namespace SeparateLines

variable {t : Text} {ls : List Text}

theorem lines_joined (h : SeparateLines ls) : lines (joined "\n" ls) = ls := by
  induction h with
  | nil => rfl
  | last hfeed hne => simpa [joined] using lines_line hfeed hne
  | cons hfeed hreturn hne _ ih =>
    rw [joined_feed_cons hne, lines_line_feed hfeed, withoutReturn_of_ne hreturn, ih]

theorem of_feedSeparated (h : FeedSeparated t) : SeparateLines (lines t) := by
  fun_induction lines t with
  | case1 => exact .nil
  | case2 cs ih =>
    obtain ⟨-, hne, hcs⟩ := feedSeparated_cons_iff.mp h
    have hlines : lines cs ≠ [] := by
      rw [ne_eq, lines_eq_nil_iff]
      exact fun hnil => hne ⟨rfl, hnil⟩
    exact .cons (by simp) (by simp) hlines (ih hcs)
  | case3 cs => exact absurd ⟨[], cs, rfl⟩ h.no_return_feed
  | case4 c cs hfeed => exact .last (by simpa using Ne.symm hfeed) (by simp)
  | case5 c cs hfeed hreturn l ls hlines ih =>
    have hcs := (feedSeparated_cons_iff.mp h).2.2
    have hjoined : joined "\n" (l :: ls) = cs := hlines ▸ joined_lines_eq_iff.mpr hcs
    cases hlines ▸ ih hcs with
    | last hl hne => exact .last (by simp [hl, Ne.symm hfeed]) (by simp)
    | cons hl hlast hne hls =>
      refine .cons (by simp [hl, Ne.symm hfeed]) ?_ hne hls
      cases l with
      | nil =>
        -- an empty line begins with its line feed, so the character before it is no return
        rw [joined_feed_cons hne] at hjoined
        intro hr
        exact hreturn _ (by simpa using hr) hjoined.symm
      | cons d ds => rwa [List.getLast?_cons_cons]

end SeparateLines

end SwiftManifest
