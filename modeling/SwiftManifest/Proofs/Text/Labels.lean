import SwiftManifest.Proofs.Text.Hanging

/-! The labels that the lines of a call begin with, one tab in. An argument begins one line with its
label; further lines of its value stand further right or close a bracket, so no label is read off
them. -/

namespace SwiftManifest

/-- The label of a line with a letter right behind one tab: what comes before its first colon. -/
def lineLabel? : Text → Option Text
  | '\t' :: c :: cs => if c.isAlpha then some ((c :: cs).takeWhile (· ≠ ':')) else none
  | _ => none

/-- A line that does not begin an argument: if it begins with a tab, then another one or a closing
bracket comes next. -/
def isContinuation : Text → Bool
  | '\t' :: c :: _ => c = '\t' || isClosing c
  | _ => true

/-- The labels that are read off lines, and no line in doubt. -/
structure ShowLabels (ls labels : List Text) : Prop where
  labels_eq : ls.filterMap lineLabel? = labels
  others : ∀ l ∈ ls, (lineLabel? l).isSome ∨ isContinuation l

theorem lineLabel?_of_isContinuation {l : Text} (h : isContinuation l) : lineLabel? l = none := by
  unfold isContinuation at h
  split at h
  · rename_i c cs
    obtain rfl | hc : c = '\t' ∨ isClosing c := by simpa using h
    · rfl
    · obtain rfl | rfl : c = ')' ∨ c = ']' := by simpa [isClosing] using hc
      all_goals rfl
  · rename_i hshort
    rw [lineLabel?.eq_2 l hshort]

namespace ShowLabels

variable {ls ls' labels labels' : List Text}

theorem append (h : ShowLabels ls labels) (h' : ShowLabels ls' labels') :
    ShowLabels (ls ++ ls') (labels ++ labels') where
  labels_eq := by rw [List.filterMap_append, h.labels_eq, h'.labels_eq]
  others := List.forall_mem_append.mpr ⟨h.others, h'.others⟩

theorem of_continuations (h : ∀ l ∈ ls, isContinuation l) : ShowLabels ls [] where
  labels_eq := List.filterMap_eq_nil_iff.mpr fun l hl => lineLabel?_of_isContinuation (h l hl)
  others := fun l hl => .inr (h l hl)

end ShowLabels

section Lines

variable {c : Char} {t u : Text}

theorem tail_lines_cons (h : c ≠ '\n') : (lines (c :: t)).tail = (lines t).tail := by
  -- a return goes with the feed behind it, which opens the next line with or without it
  by_cases hreturn : c = '\r' ∧ ∃ rest, t = '\n' :: rest
  · obtain ⟨rfl, rest, rfl⟩ := hreturn
    simp [lines]
  · rw [lines_cons h fun rest hc ht => hreturn ⟨hc, rest, ht⟩, List.tail_cons]

theorem Block.of_cons (h : Block (c :: t)) (hne : t ≠ []) : Block t := by
  obtain ⟨d, hd, hend⟩ := h
  rw [List.getLast?_cons_of_ne_nil hne] at hd
  exact ⟨d, hd, hend⟩

/-- A text that ends in the middle of a line is all lines of its own before a line feed. -/
theorem Block.lines_append_feed (h : Block t) (u : Text) :
    lines (t ++ '\n' :: u) = lines t ++ lines u := by
  fun_induction lines t with
  | case1 => exact absurd rfl h.ne_nil
  | case2 cs ih =>
    have hcs : cs ≠ [] := by
      rintro rfl
      exact absurd h (by decide)
    simp [lines, ih (h.of_cons hcs)]
  | case3 cs ih =>
    have hcs : cs ≠ [] := by
      rintro rfl
      exact absurd h (by decide)
    simp [lines, ih ((h.of_cons (by simp)).of_cons hcs)]
  | case4 c cs hfeed hreturn hlines =>
    obtain rfl := lines_eq_nil_iff.mp hlines
    have hc : c ≠ '\r' := by
      rintro rfl
      exact absurd h (by decide)
    rw [List.singleton_append, lines_cons hfeed fun _ hc' _ => hc hc', lines]
    rfl
  | case5 c cs hfeed hreturn l ls hlines ih =>
    have hcs : cs ≠ [] := by
      rintro rfl
      simp [lines] at hlines
    -- the feed behind the text is not the one that a return in it could go with
    have hseam : ∀ rest, c = '\r' → cs ++ '\n' :: u = '\n' :: rest → False := by
      obtain ⟨d, ds, rfl⟩ := List.exists_cons_of_ne_nil hcs
      intro rest hc heq
      exact hreturn ds hc (by rw [(List.cons.inj heq).1])
    rw [List.cons_append, lines_cons hfeed hseam, ih (h.of_cons hcs), hlines]
    rfl

end Lines

section Moved

variable {t : Text}

theorem head?_of_first_line {c : Char} {cs : Text} (h : (lines t).headD [] = c :: cs) :
    t.head? = some c ∧ c ≠ '\n' := by
  fun_cases lines t <;> simp_all [lines]

theorem head?_moved : ∀ d ∈ (moved t).head?, d = '\n' ∨ d ∈ t.head? := by
  fun_cases moved t <;> simp_all [eq_comm]

theorem isContinuation_behind_tab (h : ∀ d ∈ t.head?, hangs d) :
    isContinuation ('\t' :: (lines (moved t)).headD []) := by
  cases hline : (lines (moved t)).headD [] with
  | nil => rfl
  | cons c rest =>
    obtain ⟨hhead, hfeed⟩ := head?_of_first_line hline
    have hc : hangs c := h c ((head?_moved c hhead).resolve_left hfeed)
    simpa [hangs, hfeed, isContinuation] using hc

/-- One tab further right, the lines of a hanging text behind its first one begin no argument. -/
theorem isContinuation_of_mem_tail (h : Hanging t) :
    ∀ l ∈ (lines (moved t)).tail, isContinuation l := by
  fun_induction moved t with
  | case1 => simp [lines]
  | case2 cs ih =>
    rw [lines, List.tail_cons, lines_cons (by decide) (by simp), List.forall_mem_cons]
    exact ⟨isContinuation_behind_tab h.hangs_head, ih h.tail⟩
  | case3 cs ih =>
    rw [lines, List.tail_cons, lines_cons (by decide) (by simp), List.forall_mem_cons]
    exact ⟨isContinuation_behind_tab h.tail.hangs_head, ih h.tail.tail⟩
  | case4 c cs hfeed _ ih =>
    rw [tail_lines_cons hfeed]
    exact ih h.tail

end Moved

/-- A text on one line. -/
def Inline (t : Text) : Prop := ∀ c ∈ t, c ∉ ['\n', '\r']

instance (t : Text) : Decidable (Inline t) :=
  inferInstanceAs (Decidable (∀ c ∈ t, _))

namespace Inline

variable {t : Text}

theorem lines_append (h : Inline t) (hne : t ≠ []) (u : Text) :
    lines (t ++ u) = (t ++ (lines u).headD []) :: (lines u).tail := by
  induction t with
  | nil => exact absurd rfl hne
  | cons c cs ih =>
    rcases List.forall_mem_cons.mp h with ⟨hc, hcs⟩
    obtain ⟨hfeed, hreturn⟩ : c ≠ '\n' ∧ c ≠ '\r' := by simpa using hc
    rw [List.cons_append, lines_cons hfeed fun _ hc' _ => hreturn hc']
    cases cs with
    | nil => rfl
    | cons d ds => rw [ih hcs (List.cons_ne_nil d ds)]; rfl

theorem moved_append (h : Inline t) (u : Text) : moved (t ++ u) = t ++ moved u := by
  induction t with
  | nil => rfl
  | cons c cs ih =>
    rcases List.forall_mem_cons.mp h with ⟨hc, hcs⟩
    obtain ⟨hfeed, hreturn⟩ : c ≠ '\n' ∧ c ≠ '\r' := by simpa using hc
    rw [List.cons_append, moved.eq_4 c _ hfeed fun _ hc' _ => hreturn hc', ih hcs,
      List.cons_append]

theorem append (ht : Inline t) {u : Text} (hu : Inline u) : Inline (t ++ u) :=
  List.forall_mem_append.mpr ⟨ht, hu⟩

end Inline

/-- A label of ASCII letters. -/
structure IsLabel (label : Text) : Prop where
  ne_nil : label ≠ []
  letters : ∀ c ∈ label, c.isAlpha

instance (label : Text) : Decidable (IsLabel label) :=
  decidable_of_iff (label ≠ [] ∧ ∀ c ∈ label, c.isAlpha)
    ⟨fun h => ⟨h.1, h.2⟩, fun h => ⟨h.ne_nil, h.letters⟩⟩

namespace IsLabel

variable {label : Text}

theorem inline (h : IsLabel label) : Inline label := by
  intro c hc hend
  have hletter := h.letters c hc
  obtain rfl | rfl : c = '\n' ∨ c = '\r' := by simpa using hend
  all_goals exact absurd hletter (by decide)

theorem lineLabel?_eq (h : IsLabel label) (t : Text) :
    lineLabel? ('\t' :: (label ++ ':' :: t)) = some label := by
  have hlabel : (label ++ ':' :: t).takeWhile (· ≠ ':') = label := by
    rw [List.takeWhile_append_of_pos, List.takeWhile_cons_of_neg (by simp), List.append_nil]
    intro c hc
    have hletter := h.letters c hc
    rw [decide_eq_true_eq]
    rintro rfl
    exact absurd hletter (by decide)
  obtain ⟨c, cs, rfl⟩ := List.exists_cons_of_ne_nil h.ne_nil
  rw [List.cons_append] at hlabel
  rw [List.cons_append, lineLabel?, if_pos (h.letters c (by simp)), hlabel]

end IsLabel

/-- The line of a label comes first, and the others belong to its value. -/
theorem showLabels_labeledText {label value : Text} (hlabel : IsLabel label)
    (hvalue : Hanging value) :
    ShowLabels (lines ('\t' :: moved (labeledText label value))) [label] := by
  have hfront : Inline (['\t'] ++ (label ++ [':', ' '])) :=
    .append (by decide) (hlabel.inline.append (by decide))
  have hmoved : '\t' :: moved (labeledText label value) =
      ['\t'] ++ (label ++ [':', ' ']) ++ moved value := by
    have htext : labeledText label value = label ++ [':', ' '] ++ value := by simp [labeledText]
    rw [htext, (hlabel.inline.append (by decide)).moved_append]
    rfl
  have hfirst (rest : Text) : ShowLabels [['\t'] ++ (label ++ [':', ' ']) ++ rest] [label] := by
    have hline := hlabel.lineLabel?_eq (' ' :: rest)
    constructor <;> simp [hline]
  rw [hmoved, hfront.lines_append (by simp)]
  exact (hfirst _).append (.of_continuations (isContinuation_of_mem_tail hvalue))

/-- An argument as it is written, with its label. -/
inductive IsArgument (label : Text) : Text → Prop
  | labeled {value : Text} : IsLabel label → Block value → Hanging value →
      IsArgument label (labeledText label value)

namespace IsArgument

variable {label e : Text}

theorem block (h : IsArgument label e) : Block e := by
  obtain ⟨-, hblock, -⟩ := h
  exact ((hblock.cons ' ').cons ':').append_left label

theorem showLabels (h : IsArgument label e) : ShowLabels (lines (indent e)) [label] := by
  rw [h.block.indent_eq]
  obtain ⟨hlabel, -, hhanging⟩ := h
  exact showLabels_labeledText hlabel hhanging

/-- The comma behind an argument belongs to its value. -/
theorem showLabels_comma (h : IsArgument label e) :
    ShowLabels (lines (indent e ++ [','])) [label] := by
  have hcomma : indent e ++ [','] = indent (e ++ [',']) := by
    rw [h.block.indent_append (.append_left (by decide) e)]
    rfl
  rw [hcomma]
  cases h with
  | @labeled value hlabel hblock hhanging =>
    have hvalue : IsArgument label (labeledText label (value ++ [','])) :=
      .labeled hlabel (.append_left (by decide) value)
        (hhanging.append_of_block hblock (.of_not_mem (by decide)))
    have htext : labeledText label value ++ [','] = labeledText label (value ++ [',']) := by
      simp [labeledText]
    rw [htext]
    exact hvalue.showLabels

end IsArgument

variable {labels es : List Text}

theorem IsArgument.blocks (h : List.Forall₂ IsArgument labels es) : ∀ e ∈ es, Block e := by
  induction h with
  | nil => simp
  | cons he _ ih => exact List.forall_mem_cons.mpr ⟨he.block, ih⟩

/-- Every argument but the last has a comma behind it on its own last line. -/
theorem showLabels_joined (h : List.Forall₂ IsArgument labels es) (hne : es ≠ []) :
    ShowLabels (lines (joined ",\n" (es.map indent))) labels := by
  induction h with
  | nil => exact absurd rfl hne
  | @cons label e labels es he hes ih =>
    cases es with
    | nil =>
      cases hes
      simpa [joined] using he.showLabels
    | cons d ds =>
      have hseam : joined ",\n" ((e :: d :: ds).map indent) =
          (indent e ++ [',']) ++ '\n' :: joined ",\n" ((d :: ds).map indent) := by
        simp [joined_cons]
      have hblock : Block (indent e ++ [',']) := .append_left (by decide) _
      rw [hseam, hblock.lines_append_feed]
      exact he.showLabels_comma.append (ih (List.cons_ne_nil d ds))

theorem lines_behind_keyword {keyword : Text} (h : Inline keyword) (t : Text) :
    lines (keyword ++ '(' :: '\n' :: t) = [keyword ++ ['(']] ++ lines t := by
  have hopening : Inline (keyword ++ ['(']) := h.append (by decide)
  simpa [lines] using hopening.lines_append (by simp) ('\n' :: t)

theorem lines_callText {keyword : Text} (hkeyword : Inline keyword) (hne : es ≠ [])
    (h : ∀ e ∈ es, Block e) :
    lines (callText keyword es) =
      [keyword ++ ['(']] ++ (lines (joined ",\n" (es.map indent)) ++ [[')']]) := by
  have hblocks : ∀ e ∈ es.map indent, Block e := by
    rw [List.forall_mem_map]
    intro e he
    exact (h e he).block_indent
  have hblock : Block (joined ",\n" (es.map indent)) := block_joined (by simpa using hne) hblocks _
  rw [callText_of_blocks keyword hne h, List.append_assoc, List.cons_append, List.cons_append,
    lines_behind_keyword hkeyword, hblock.lines_append_feed]
  rfl

theorem isContinuation_keyword {keyword : Text} (h : keyword.head? ≠ some '\t') :
    isContinuation (keyword ++ ['(']) := by
  cases keyword with
  | nil => rfl
  | cons c cs =>
    unfold isContinuation
    split
    · simp_all
    · rfl

/-- The labels of a call on lines of its own are those of its arguments, in order. -/
theorem showLabels_callText {keyword : Text} (hkeyword : Inline keyword)
    (htab : keyword.head? ≠ some '\t') (h : List.Forall₂ IsArgument labels es) :
    ShowLabels (lines (callText keyword es)) labels := by
  have hopening : ShowLabels [keyword ++ ['(']] [] := by
    apply ShowLabels.of_continuations
    rw [List.forall_mem_singleton]
    exact isContinuation_keyword htab
  have hclosing : ShowLabels [[')']] [] := .of_continuations (by decide)
  by_cases hne : es = []
  · subst hne
    cases h
    have hbare : lines (callText keyword []) = [keyword ++ ['(']] ++ [[], [')']] := by
      simpa [callText, joined, indent, lines] using lines_behind_keyword hkeyword ['\n', ')']
    rw [hbare]
    exact hopening.append (.of_continuations (by decide))
  · have hall := (showLabels_joined h hne).append hclosing
    rw [List.append_nil] at hall
    rw [lines_callText hkeyword hne (IsArgument.blocks h)]
    exact hopening.append hall

end SwiftManifest
