import SwiftManifest.Expression.Argument
import SwiftManifest.Proofs.Expression.Tokens
import SwiftManifest.Proofs.Text.Frame

/-! The text of an expression is a block, whatever strings and names stand between its brackets, so a
list is written entry by entry and the place of an entry is a frame. -/

namespace SwiftManifest

namespace Expression

/-- The name of a symbol may reach the end of the text; every other name has a bracket behind it. -/
def Closed : Expression → Prop
  | .symbol name => Block (symbolText name.toList)
  | .labeled _ value | .reported _ value => Closed value
  | _ => True

theorem block_print {e : Expression} (h : e.Closed) : Block e.print := by
  induction e with
  | literal value => exact Token.block_text (t := .literal value.toList) trivial rfl
  | symbol name => exact h
  | strings values => exact .append_left (u := [']']) (by decide) _
  | requirement constraint =>
    rw [print, ← spell_requirementTokens]
    exact block_spell_of_framed (plain_requirementTokens _) (framed_requirementTokens _)
  | absent => exact (by decide : Block "nil".toList)
  | list entries =>
    rw [print, bracketedList]
    split
    · decide
    · exact .append_left (by decide) _
  | call keyword arguments =>
    rw [print, callText]
    exact .append_left (by decide) _
  | inlineCall keyword arguments =>
    rw [print, inlineCallText]
    exact .append_left (by decide) _
  | labeled label value ih => exact (((ih h).cons ' ').cons ':').append_left label.toList
  | reported event value ih => exact ih h

end Expression

section Arguments

open Expression (Closed)

variable {α : Type} [Expressible α] {label : String}

theorem closed_optionalLiteral (value : Option String) :
    ∀ e ∈ optionalLiteral label value, e.Closed := by
  cases value with
  | none => simp [optionalLiteral]
  | some value => simp [optionalLiteral, literalArgument, Closed]

theorem closed_optionalNode (h : ∀ a : α, (expression a).Closed) (value : Option α) :
    ∀ e ∈ optionalNode label value, e.Closed := by
  cases value with
  | none => simp [optionalNode]
  | some a => simpa [optionalNode, Closed] using h a

theorem closed_optionalList (as : List α) : ∀ e ∈ optionalList label as, e.Closed := by
  cases as with
  | nil => simp [optionalList]
  | cons a as => simp [optionalList, expression, Closed]

theorem optionalList_of_ne_nil (label : String) {as : List α} (h : as ≠ []) :
    optionalList label as = [.labeled label (expression as)] := by
  cases as with
  | nil => exact absurd rfl h
  | cons a as => rfl

theorem render_list (as : List α) : render as = bracketedList (as.map render) := by
  change bracketedList (Expression.printAll (as.map expression)) = _
  rw [Expression.printAll_eq_map, List.map_map]
  rfl

end Arguments

end SwiftManifest
