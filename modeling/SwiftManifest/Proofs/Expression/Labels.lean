import SwiftManifest.Expression.Argument
import SwiftManifest.Proofs.Expression.Block
import SwiftManifest.Proofs.Text.Labels
import Mathlib.Data.List.Nodup

/-! The text of an expression hangs, so the arguments of a call are told apart by the lines that
begin with a label. An argument is there when its parameter has something to say, and a call has
the arguments of its parameters in their order. -/

namespace SwiftManifest

namespace Expression

variable {bare : Prop}

theorem feed_not_mem_name {t : Text} (h : ∀ c ∈ t, nameChar c) : '\n' ∉ t :=
  fun hmem => absurd (h '\n' hmem) (by decide)

theorem block_of_wellFormed {e : Expression} (he : e.WellFormed bare) : Block e.print := by
  rw [print_eq_spell he]
  exact block_spell_of_framed (plain_tokens he 0) (framed_tokens he 0)

theorem feed_not_mem_requirement (constraint : Text) :
    '\n' ∉ SwiftManifest.requirement constraint := by
  rw [← spell_requirementTokens]
  intro h
  obtain ⟨t, ht, hfeed⟩ := List.mem_flatMap.mp h
  rcases mem_requirementTokens ht with ⟨value, rfl⟩ | ⟨c, hc, rfl⟩
  · exact not_mem_quoted (.inl rfl) hfeed
  · obtain rfl : '\n' = c := List.mem_singleton.mp hfeed
    exact absurd hc (by decide)

/-- Lists and calls indent what is in them; everywhere else the text goes on in its line. -/
theorem hanging_print {e : Expression} (he : e.WellFormed bare) : Hanging e.print := by
  induction e with
  | literal value => exact hanging_quoted value.toList
  | symbol name => exact .of_not_mem (feed_not_mem_name (nameChar_of_mem_symbol he))
  | strings values => exact hanging_quotedList values
  | requirement constraint => exact .of_not_mem (feed_not_mem_requirement constraint.toList)
  | absent => exact .of_not_mem (by decide)
  | list entries => exact hanging_bracketedList _
  | call keyword arguments => exact hanging_callText (feed_not_mem_name he.1.chars) _
  | inlineCall keyword arguments ih =>
    rcases he with ⟨hkeyword, harguments⟩
    apply hanging_inlineCallText (feed_not_mem_name hkeyword.chars)
    rw [printAll_eq_map, List.forall_mem_map]
    intro e he
    have hwell := allWellFormed_iff.mp harguments e he
    exact ⟨block_of_wellFormed hwell, ih e he hwell⟩
  | labeled label value ih =>
    rcases he with ⟨hlabel, hvalue⟩
    have hfront : '\n' ∉ label.toList ++ [':', ' '] := by
      simpa using feed_not_mem_name hlabel.chars
    have htext : labeledText label.toList value.print =
        label.toList ++ [':', ' '] ++ value.print := by
      simp [labeledText]
    rw [print, htext]
    exact (Hanging.of_not_mem hfront).append_of_block (.append_left (by decide) _) (ih hvalue)
  | reported event value ih => exact ih he

end Expression

/-- A parameter of a call, and whether there is an argument for it. -/
structure Parameter where
  label : String
  present : Bool

def presentLabels (ps : List Parameter) : List Text :=
  (ps.filter Parameter.present).map fun p => p.label.toList

theorem presentLabels_append (ps qs : List Parameter) :
    presentLabels (ps ++ qs) = presentLabels ps ++ presentLabels qs := by
  simp [presentLabels]

theorem nodup_presentLabels {ps : List Parameter} (h : (ps.map Parameter.label).Nodup) :
    (presentLabels ps).Nodup := by
  have hpresent : ((ps.filter Parameter.present).map Parameter.label).Nodup :=
    h.sublist (List.filter_sublist.map _)
  have hlabels : presentLabels ps =
      ((ps.filter Parameter.present).map Parameter.label).map String.toList := by
    simp [presentLabels]
  rw [hlabels]
  exact hpresent.map fun a b => String.toList_inj.mp

/-- A call has arguments for its parameters in this order. -/
def Fills (ps : List Parameter) (es : List Expression) : Prop :=
  List.Forall₂ IsArgument (presentLabels ps) (es.map Expression.print)

namespace Fills

theorem append {ps qs : List Parameter} {es fs : List Expression} (h : Fills ps es)
    (h' : Fills qs fs) : Fills (ps ++ qs) (es ++ fs) := by
  rw [Fills, presentLabels_append, List.map_append]
  exact List.rel_append h h'

theorem cons {p : Parameter} {ps : List Parameter} {es fs : List Expression} (h : Fills [p] es)
    (h' : Fills ps fs) : Fills (p :: ps) (es ++ fs) :=
  h.append h'

/-- The labels of a call can be read off its text. -/
theorem showLabels {ps : List Parameter} {es : List Expression} (h : Fills ps es)
    {keyword : String} (hkeyword : IsKeyword keyword) :
    ShowLabels (lines (Expression.call keyword es).print) (presentLabels ps) := by
  have hinline : Inline keyword.toList := fun c hc => (hkeyword.chars c hc).not_mem (by decide)
  have htab : keyword.toList.head? ≠ some '\t' := by
    intro hhead
    exact absurd (hkeyword.chars _ (List.mem_of_head? hhead)) (by decide)
  rw [Expression.print, Expression.printAll_eq_map]
  exact showLabels_callText hinline htab h

end Fills

section Arguments

variable {label : String} {α : Type} [Expressible α]

theorem fills_labeled {value : Expression} (hlabel : IsLabel label.toList)
    (hblock : Block value.print) (hhanging : Hanging value.print) :
    Fills [⟨label, true⟩] [.labeled label value] :=
  List.Forall₂.cons (.labeled hlabel hblock hhanging) .nil

theorem fills_wellFormed {value : Expression} (hlabel : IsLabel label.toList)
    (hvalue : value.WellFormed True) : Fills [⟨label, true⟩] [.labeled label value] :=
  fills_labeled hlabel (Expression.block_of_wellFormed hvalue) (Expression.hanging_print hvalue)

theorem fills_literalArgument (hlabel : IsLabel label.toList) (value : String) :
    Fills [⟨label, true⟩] [literalArgument label value] :=
  fills_wellFormed hlabel trivial

theorem fills_optionalLiteral (hlabel : IsLabel label.toList) (value : Option String) :
    Fills [⟨label, value.isSome⟩] (optionalLiteral label value) := by
  cases value with
  | none => exact List.Forall₂.nil
  | some value => exact fills_literalArgument hlabel value

theorem fills_optionalStrings (hlabel : IsLabel label.toList) (values : List String) :
    Fills [⟨label, !values.isEmpty⟩] (optionalStrings label values) := by
  cases values with
  | nil => exact List.Forall₂.nil
  | cons value values => exact fills_wellFormed hlabel trivial

theorem fills_optionalNode (hlabel : IsLabel label.toList) {value : Option α}
    (h : ∀ a ∈ value, (expression a).WellFormed True) :
    Fills [⟨label, value.isSome⟩] (optionalNode label value) := by
  cases value with
  | none => exact List.Forall₂.nil
  | some a => exact fills_wellFormed hlabel (h a rfl)

theorem fills_optionalSymbol {β : Type} [Symbolic β] (hlabel : IsLabel label.toList)
    (h : ∀ b ∈ (Symbolic.all : List β), ∀ c ∈ (Symbolic.symbol b).toList, wordChar c)
    (value : Option β) : Fills [⟨label, value.isSome⟩] (optionalNode label value) := by
  apply fills_optionalNode hlabel
  intro b _
  exact h b (Symbolic.mem_all b)

/-- What is in a list does not matter. -/
theorem fills_optionalList (hlabel : IsLabel label.toList) (as : List α) :
    Fills [⟨label, !as.isEmpty⟩] (optionalList label as) := by
  cases as with
  | nil => exact List.Forall₂.nil
  | cons a as =>
    have hlist : (expression (a :: as)).Closed := trivial
    exact fills_labeled hlabel (Expression.block_print hlist) (hanging_bracketedList _)

end Arguments

end SwiftManifest
