import SwiftManifest.Requirement.Compile
import SwiftManifest.Proofs.Requirement.Matching
import SwiftManifest.Proofs.Text.Token

/-! The tokens of a requirement: literals, and the characters of operators between them. -/

namespace SwiftManifest

namespace OperatorMatch

/-- The literal in front of the operator, unless the operator comes first. -/
def leftTokens (constraint : Text) (m : OperatorMatch) : List Token :=
  if m.start = 0 then [] else [.literal (constraint.take m.start)]

/-- The literal behind the operator; one of the two literals is always there. -/
def rightTokens (constraint : Text) (m : OperatorMatch) : List Token :=
  if m.start ≠ 0 ∧ m.right constraint = [] then [] else [.literal (m.right constraint)]

def tokens (constraint : Text) (m : OperatorMatch) : List Token :=
  m.leftTokens constraint ++ (marks m.operator.text ++ m.rightTokens constraint)

theorem spell_tokens (constraint : Text) (m : OperatorMatch) :
    spell (m.tokens constraint) = operatorPiece constraint m := by
  by_cases hstart : m.start = 0
  · simp [tokens, leftTokens, rightTokens, operatorPiece, right, hstart, Token.text]
  · by_cases hright : constraint.drop (m.start + m.operator.text.length) = []
    · simp [tokens, leftTokens, rightTokens, operatorPiece, right, hstart, hright, Token.text]
    · simp [tokens, leftTokens, rightTokens, operatorPiece, right, hstart, hright, Token.text]

end OperatorMatch

def requirementTokens (constraint : Text) : List Token :=
  if operatorMatches constraint = [] then marks "from: ".toList ++ [.literal constraint]
  else (operatorMatches constraint).flatMap (·.tokens constraint)

theorem spell_requirementTokens (constraint : Text) :
    spell (requirementTokens constraint) = requirement constraint := by
  unfold requirementTokens requirement
  cases operatorMatches constraint with
  | nil => simp [Token.text]
  | cons m ms =>
    rw [if_neg (List.cons_ne_nil m ms), spell, List.flatMap_assoc]
    exact congrArg (List.flatMap · (m :: ms))
      (funext fun m => OperatorMatch.spell_tokens constraint m)

/-- The characters that an operator is written with. -/
def operatorChars : List Char := ['!', '=', '.', '<', '>']

theorem RangeOperator.mem_operatorChars {o : RangeOperator} {c : Char} (h : c ∈ o.text) :
    c ∈ operatorChars := by
  revert c
  cases o <;> decide

theorem OperatorMatch.mem_tokens {constraint : Text} {m : OperatorMatch} {t : Token}
    (h : t ∈ m.tokens constraint) :
    (∃ value, t = .literal value) ∨ ∃ c ∈ operatorChars, t = .mark c := by
  simp only [tokens, leftTokens, rightTokens, List.mem_append, marks, List.mem_map] at h
  rcases h with hleft | ⟨c, hc, rfl⟩ | hright
  · split at hleft
    · simp at hleft
    · exact .inl ⟨_, List.mem_singleton.mp hleft⟩
  · exact .inr ⟨c, RangeOperator.mem_operatorChars hc, rfl⟩
  · split at hright
    · simp at hright
    · exact .inl ⟨_, List.mem_singleton.mp hright⟩

theorem requirementTokens_of_nil {constraint : Text} (h : operatorMatches constraint = []) :
    requirementTokens constraint = marks "from: ".toList ++ [.literal constraint] := if_pos h

theorem requirementTokens_of_ne_nil {constraint : Text} (h : operatorMatches constraint ≠ []) :
    requirementTokens constraint = (operatorMatches constraint).flatMap (·.tokens constraint) :=
  if_neg h

theorem mem_requirementTokens_of_ne_nil {constraint : Text}
    (hmatches : operatorMatches constraint ≠ []) {t : Token}
    (h : t ∈ requirementTokens constraint) :
    (∃ value, t = .literal value) ∨ ∃ c ∈ operatorChars, t = .mark c := by
  rw [requirementTokens_of_ne_nil hmatches] at h
  obtain ⟨m, -, hm⟩ := List.mem_flatMap.mp h
  exact OperatorMatch.mem_tokens hm

/-- A requirement with operators does not begin like a lower bound. -/
theorem requirementTokens_ne_from {constraint : Text} (hmatches : operatorMatches constraint ≠ [])
    (rest : List Token) : requirementTokens constraint ≠ marks "from: ".toList ++ rest := by
  intro h
  have hfrom : Token.mark 'f' ∈ requirementTokens constraint := by
    rw [h]
    exact List.mem_cons_self
  rcases mem_requirementTokens_of_ne_nil hmatches hfrom with ⟨value, hvalue⟩ | ⟨c, hc, hmark⟩
  · exact Token.noConfusion hvalue
  · obtain rfl := Token.mark.inj hmark
    exact absurd hc (by decide)

/-- Nothing but literals and the characters of operators and of the word in front of a bound. -/
theorem mem_requirementTokens {constraint : Text} {t : Token}
    (h : t ∈ requirementTokens constraint) :
    (∃ value, t = .literal value) ∨ ∃ c ∈ "from: ".toList ++ operatorChars, t = .mark c := by
  by_cases hmatches : operatorMatches constraint = []
  · rw [requirementTokens_of_nil hmatches] at h
    simp only [List.mem_append, List.mem_singleton, marks, List.mem_map] at h
    rcases h with ⟨c, hc, rfl⟩ | rfl
    · exact .inr ⟨c, List.mem_append_left _ hc, rfl⟩
    · exact .inl ⟨_, rfl⟩
  · rcases mem_requirementTokens_of_ne_nil hmatches h with hliteral | ⟨c, hc, rfl⟩
    · exact .inl hliteral
    · exact .inr ⟨c, List.mem_append_right _ hc, rfl⟩

theorem plain_requirementTokens (constraint : Text) :
    ∀ t ∈ requirementTokens constraint, t.Plain := by
  have hchars : ∀ c ∈ "from: ".toList ++ operatorChars, (Token.mark c).Plain := by decide
  intro t ht
  rcases mem_requirementTokens ht with ⟨value, rfl⟩ | ⟨c, hc, rfl⟩
  · trivial
  · exact hchars c hc

theorem requirementTokens_ne_nil (constraint : Text) : requirementTokens constraint ≠ [] := by
  by_cases hmatches : operatorMatches constraint = []
  · simp [requirementTokens_of_nil hmatches]
  · obtain ⟨m, ms, h⟩ := List.exists_cons_of_ne_nil hmatches
    rw [requirementTokens_of_ne_nil hmatches, h]
    simp [OperatorMatch.tokens, marks, RangeOperator.text_ne_nil]

end SwiftManifest
