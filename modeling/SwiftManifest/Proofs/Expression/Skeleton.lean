import SwiftManifest.Proofs.Expression.MapText
import SwiftManifest.Proofs.Expression.Tokens
import SwiftManifest.Proofs.Text.Scan

/-! The skeleton of an expression: its text without the contents of literals. Of its strings only
version constraints show in it, and of those only their operators. -/

namespace SwiftManifest

/-- An operator of a constraint, and whether it comes first and last in it. -/
structure OperatorShape where
  operator : RangeOperator
  first : Bool
  last : Bool
  deriving DecidableEq, Repr

namespace OperatorShape

def tokens (s : OperatorShape) : List Token :=
  (if s.first then [] else [.literal []]) ++
    (marks s.operator.text ++ if !s.first && s.last then [] else [.literal []])

end OperatorShape

def OperatorMatch.shape (constraint : Text) (m : OperatorMatch) : OperatorShape :=
  { operator := m.operator
    first := m.start = 0
    last := m.right constraint = [] }

/-- What of a constraint is not the contents of a literal in its requirement. -/
def requirementShape (constraint : String) : List OperatorShape :=
  (operatorMatches constraint.toList).map (·.shape constraint.toList)

theorem OperatorMatch.map_erased_tokens (constraint : Text) (m : OperatorMatch) :
    (m.tokens constraint).map Token.erased = (m.shape constraint).tokens := by
  by_cases hfirst : m.start = 0
  · simp [tokens, leftTokens, rightTokens, OperatorShape.tokens, shape, hfirst, map_erased_marks,
      Token.erased]
  · by_cases hlast : m.right constraint = []
    · simp [tokens, leftTokens, rightTokens, OperatorShape.tokens, shape, hfirst, hlast,
        map_erased_marks, Token.erased]
    · simp [tokens, leftTokens, rightTokens, OperatorShape.tokens, shape, hfirst, hlast,
        map_erased_marks, Token.erased]

theorem map_erased_requirementTokens (constraint : String) :
    (requirementTokens constraint.toList).map Token.erased =
      if requirementShape constraint = [] then marks "from: ".toList ++ [.literal []]
      else (requirementShape constraint).flatMap OperatorShape.tokens := by
  by_cases h : operatorMatches constraint.toList = []
  · simp [requirementTokens_of_nil h, requirementShape, h, Token.erased]
  · simp [requirementTokens_of_ne_nil h, requirementShape, h, List.map_flatMap,
      OperatorMatch.map_erased_tokens, List.flatMap_map]

namespace Expression

variable {f g : String → String}

theorem map_erased_parts {es : List Expression} {k : Nat}
    (h : ∀ e ∈ es, ∀ k,
      ((e.mapText f g).tokens k).map Token.erased = (e.tokens k).map Token.erased) :
    (allTokens k (mapTextAll f g es)).map (·.map Token.erased) =
      (allTokens k es).map (·.map Token.erased) := by
  rw [mapTextAll_eq_map, allTokens_eq_map, allTokens_eq_map, List.map_map, List.map_map,
    List.map_map]
  apply List.map_congr_left
  intro e he
  exact h e he k

theorem map_erased_inlineTokens (parts : List (List Token)) :
    (inlineTokens parts).map Token.erased = inlineTokens (parts.map (·.map Token.erased)) := by
  simp [inlineTokens, map_intercalate, Token.erased]

theorem map_erased_blockTokens (k : Nat) (parts : List (List Token)) :
    (blockTokens k parts).map Token.erased = blockTokens k (parts.map (·.map Token.erased)) := by
  simp [blockTokens, map_intercalate, Token.erased]

/-- Other strings make no difference, nor do constraints of the same shape. -/
theorem map_erased_tokens (hg : ∀ c, requirementShape (g c) = requirementShape c) (e : Expression)
    (k : Nat) : ((e.mapText f g).tokens k).map Token.erased = (e.tokens k).map Token.erased := by
  induction e generalizing k with
  | literal value => rfl
  | symbol name => rfl
  | strings values =>
    simp [mapText, tokens, map_erased_inlineTokens, Token.erased, Function.comp_def]
  | requirement constraint =>
    rw [mapText, tokens, tokens, map_erased_requirementTokens, map_erased_requirementTokens, hg]
  | absent => rfl
  | list entries ih =>
    have hparts := map_erased_parts (k := k + 1) ih
    by_cases hempty : entries = []
    · simp [mapText, tokens, hempty]
    · simp [mapText, tokens, hempty, map_erased_blockTokens, hparts]
  | call keyword arguments ih =>
    have hparts := map_erased_parts (k := k + 1) ih
    by_cases hempty : arguments = []
    · simp [mapText, tokens, hempty]
    · simp [mapText, tokens, hempty, map_erased_blockTokens, hparts]
  | inlineCall keyword arguments ih =>
    have hparts := map_erased_parts (k := k) ih
    simp [mapText, tokens, map_erased_inlineTokens, hparts]
  | labeled label value ih => simp [mapText, tokens, ih]
  | reported event value ih => simp [mapText, tokens, ih]

variable {bare bare' : Prop}

theorem scan_print {e : Expression} (he : e.WellFormed bare) :
    scan .outside e.print = .outside := by
  rw [print_eq_spell he, scan_spell (plain_tokens he 0)]

theorem skeleton_print_eq (hg : ∀ c, requirementShape (g c) = requirementShape c)
    {e e' : Expression} (he : e.WellFormed bare) (he' : e'.WellFormed bare')
    (h : e.mapText f g = e'.mapText f g) : skeleton e.print = skeleton e'.print := by
  rw [print_eq_spell he, print_eq_spell he', skeleton_spell (plain_tokens he 0),
    skeleton_spell (plain_tokens he' 0), ← map_erased_tokens hg e, ← map_erased_tokens hg e', h]

end Expression

end SwiftManifest
