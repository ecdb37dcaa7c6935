import SwiftManifest.Proofs.Text.Block
import SwiftManifest.Proofs.Text.Nesting
import Mathlib.Data.List.Chain

/-! Texts whose lines hang: every line but the first stands further right, is empty or begins with
a closing bracket. Brackets on lines of their own make any text hang, since they indent it; on one
line a text hangs when its parts do. -/

namespace SwiftManifest

/-- Characters with which a line inside an argument may begin: it stands further right, is empty, or
closes a bracket. -/
def hangs (c : Char) : Bool := c = '\t' || c = '\n' || isClosing c

/-- A text in which such a character follows every line feed. -/
def Hanging (t : Text) : Prop := t.IsChain fun c d => c = '\n' → hangs d

namespace Hanging

variable {c : Char} {t u : Text}

theorem of_not_mem (h : '\n' ∉ t) : Hanging t := by
  induction t with
  | nil => exact .nil
  | cons c cs ih =>
    obtain ⟨hc, hcs⟩ : '\n' ≠ c ∧ '\n' ∉ cs := by simpa using h
    exact List.isChain_cons.mpr ⟨fun d _ heq => absurd heq.symm hc, ih hcs⟩

theorem append (ht : Hanging t) (hu : Hanging u)
    (hseam : t.getLast? = some '\n' → ∀ d ∈ u.head?, hangs d) : Hanging (t ++ u) := by
  refine List.isChain_append.mpr ⟨ht, hu, ?_⟩
  rintro c hc d hd rfl
  exact hseam hc d hd

theorem append_of_block (ht : Hanging t) (hblock : Block t) (hu : Hanging u) :
    Hanging (t ++ u) := by
  apply ht.append hu
  intro hlast
  exact absurd hlast (hblock.getLast?_ne (by decide))

theorem append_of_hangs (ht : Hanging t) (hc : hangs c) (hu : Hanging (c :: u)) :
    Hanging (t ++ c :: u) := by
  apply ht.append hu
  rintro - d hd
  obtain rfl : c = d := Option.some.inj hd
  exact hc

theorem feed_cons (hc : hangs c) (h : Hanging (c :: t)) : Hanging ('\n' :: c :: t) :=
  .cons_cons (fun _ => hc) h

theorem tail (h : Hanging (c :: t)) : Hanging t := (List.isChain_cons.mp h).2

theorem hangs_head (h : Hanging ('\n' :: t)) : ∀ d ∈ t.head?, hangs d := by
  intro d hd
  exact (List.isChain_cons.mp h).1 d hd rfl

theorem lines_behind_tabs {ls : List Text} (h : ∀ l ∈ ls, '\n' ∉ l) :
    Hanging (ls.flatMap fun l => '\n' :: '\t' :: l) := by
  induction ls with
  | nil => exact .nil
  | cons l ls ih =>
    rcases List.forall_mem_cons.mp h with ⟨hl, hls⟩
    have hline : Hanging ('\n' :: '\t' :: l) :=
      .feed_cons rfl (.of_not_mem (by simpa using hl))
    rw [List.flatMap_cons]
    cases ls with
    | nil => simpa using hline
    | cons l' ls => exact hline.append_of_hangs rfl (ih hls)

/-- However a text is nested in an indented block, nothing in it begins a line. -/
theorem feed_indent (t : Text) : Hanging ('\n' :: indent t) := by
  have hlines := feed_not_mem_lines t
  rw [indent]
  cases h : lines t with
  | nil => exact .singleton _
  | cons l ls =>
    have heq : '\n' :: joined "\n" ((l :: ls).map ('\t' :: ·)) =
        (l :: ls).flatMap fun l => '\n' :: '\t' :: l := by
      simp [joined_cons, List.flatMap_map]
    rw [heq]
    exact lines_behind_tabs (h ▸ hlines)

theorem between {opening : Text} (hopening : '\n' ∉ opening) (t : Text) {close : Char}
    (hclose : isClosing close) : Hanging (opening ++ '\n' :: indent t ++ ['\n', close]) := by
  have hend : Hanging ['\n', close] := .feed_cons (by simp [hangs, hclose]) (.singleton _)
  exact ((of_not_mem hopening).append_of_hangs rfl (feed_indent t)).append_of_hangs rfl hend

end Hanging

theorem hanging_bracketedList (es : List Text) : Hanging (bracketedList es) := by
  rw [bracketedList]
  split
  · exact .of_not_mem (by decide)
  · have hopening : '\n' ∉ ['['] := by decide
    exact .between hopening _ rfl

theorem hanging_callText {keyword : Text} (h : '\n' ∉ keyword) (es : List Text) :
    Hanging (callText keyword es) := by
  have hopening : '\n' ∉ keyword ++ ['('] := by simpa using h
  rw [callText]
  simpa using Hanging.between hopening (joined ",\n" es) rfl

/-- Entries on one line hang if each of them does. -/
theorem hanging_joined {separator : String} (hseparator : '\n' ∉ separator.toList)
    {es : List Text} (h : ∀ e ∈ es, Block e ∧ Hanging e) : Hanging (joined separator es) := by
  induction es with
  | nil => exact .nil
  | cons e es ih =>
    rcases List.forall_mem_cons.mp h with ⟨⟨hblock, he⟩, hes⟩
    cases es with
    | nil => simpa [joined] using he
    | cons d ds =>
      rw [joined_cons_of_ne_nil separator e (List.cons_ne_nil d ds)]
      refine he.append_of_block hblock ((Hanging.of_not_mem hseparator).append (ih hes) ?_)
      intro hlast
      exact absurd (List.mem_of_getLast? hlast) hseparator

theorem Hanging.inline {opening : Text} (hopening : '\n' ∉ opening) (hblock : Block opening)
    {es : List Text} (hes : ∀ e ∈ es, Block e ∧ Hanging e) (close : Char)
    (hclose : isClosing close) : Hanging (opening ++ (joined ", " es ++ [close])) := by
  have hend : hangs close := by simp [hangs, hclose]
  have hentries : Hanging (joined ", " es) := hanging_joined (by decide) hes
  exact (of_not_mem hopening).append_of_block hblock (hentries.append_of_hangs hend (.singleton _))

theorem hanging_inlineCallText {keyword : Text} (h : '\n' ∉ keyword) {es : List Text}
    (hes : ∀ e ∈ es, Block e ∧ Hanging e) : Hanging (inlineCallText keyword es) := by
  have hopening : '\n' ∉ keyword ++ ['('] := by simpa using h
  rw [inlineCallText]
  simpa using Hanging.inline hopening (.append_left (by decide) keyword) hes ')' rfl

theorem hanging_quoted (value : Text) : Hanging (quoted value) :=
  .of_not_mem (not_mem_quoted (.inl rfl))

theorem hanging_quotedList (values : List String) : Hanging (quotedList values) := by
  have hquoted : ∀ e ∈ values.map fun v => quoted v.toList, Block e ∧ Hanging e := by
    rw [List.forall_mem_map]
    intro v _
    exact ⟨.append_left (u := ['"']) (by decide) _, hanging_quoted v.toList⟩
  have hopening : '\n' ∉ ['['] := by decide
  exact Hanging.inline hopening (by decide) hquoted ']' rfl

end SwiftManifest
