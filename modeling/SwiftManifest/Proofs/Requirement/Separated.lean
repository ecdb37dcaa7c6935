import SwiftManifest.Proofs.Requirement.FirstFree
import SwiftManifest.Proofs.Requirement.Tokens

/-! Constraints with no operator, and constraints with one operator between two texts that are kept
apart from it. Of such a constraint the operator is the only match: whatever else occurs in it is a
part of that operator. -/

namespace SwiftManifest

/-- Decided by the one character there may be, not by going through all characters. -/
instance decidableForallMem {p : Char → Prop} [DecidablePred p] (o : Option Char) :
    Decidable (∀ c ∈ o, p c) :=
  o.decidableForallMem

/-- What a text without operators does not contain. -/
def operatorCores : List Text :=
  ["!=".toList, "==".toList, "...".toList, "<".toList, ">".toList]

/-- Two texts without operators that no operator between them can take a character from. -/
structure Separated (l r : Text) : Prop where
  left : ∀ core ∈ operatorCores, ¬ core <:+: l
  right : ∀ core ∈ operatorCores, ¬ core <:+: r
  left_end : ∀ c ∈ l.getLast?, c ∉ ['.', '!', '=']
  right_start : ∀ c ∈ r.head?, c ∉ ['.', '=']

section Occurs

variable {pattern l r : Text} {k : Nat}

theorem infix_of_occurs (h : pattern <+: l.drop k) : pattern <:+: l :=
  h.isInfix.trans (List.drop_suffix k l).isInfix

theorem exists_occurs_of_infix (h : pattern <:+: l) : ∃ k, pattern <+: l.drop k := by
  obtain ⟨before, behind, rfl⟩ := h
  refine ⟨before.length, behind, ?_⟩
  rw [List.append_assoc, List.drop_left]

/-- An occurrence that ends within the left part. -/
theorem occurs_left (h : pattern <+: (l ++ r).drop k) (hend : k + pattern.length ≤ l.length) :
    pattern <+: l.drop k := by
  rw [List.drop_append_of_le_length (by omega)] at h
  exact List.prefix_of_prefix_length_le h (List.prefix_append _ _) (by simp; omega)

/-- An occurrence that begins within the right part. -/
theorem occurs_right (h : pattern <+: (l ++ r).drop k) (hstart : l.length ≤ k) :
    pattern <+: r.drop (k - l.length) := by
  rwa [List.drop_append, List.drop_eq_nil_of_le hstart, List.nil_append] at h

/-- An occurrence across the seam has the last character of the one part and the first of the
other next to each other. -/
theorem occurs_across (h : pattern <+: (l ++ r).drop k) (hstart : k < l.length)
    (hend : l.length < k + pattern.length) :
    ∃ j, j + 1 < pattern.length ∧ l.getLast? = pattern[j]? ∧ r.head? = pattern[j + 1]? := by
  refine ⟨l.length - 1 - k, by omega, ?_, ?_⟩
  · rw [← getElem?_of_occurs h (by omega), List.getLast?_eq_getElem?,
      List.getElem?_append_left (by omega)]
    congr 1
    omega
  · rw [← getElem?_of_occurs h (by omega), List.head?_eq_getElem?,
      List.getElem?_append_right (by omega)]
    congr 1
    omega

end Occurs

namespace RangeOperator

theorem exists_core (o : RangeOperator) : ∃ core ∈ operatorCores, core <:+: o.text := by
  cases o <;> decide

/-- An operator is not part of one that is declared later. -/
theorem not_infix_of_before {o p : RangeOperator} (h : p ∈ all.takeWhile (· ≠ o)) :
    ¬ p.text <:+: o.text := by
  have hall : ∀ o ∈ all, ∀ p ∈ all.takeWhile (· ≠ o), ¬ p.text <:+: o.text := by
    decide +kernel
  exact hall o o.mem_all p h

/-- What an operator has in front of another one of its characters, and behind. -/
theorem seam {o : RangeOperator} {j : Nat} (hj : j + 1 < o.text.length) :
    (∀ c ∈ o.text[j]?, c ∈ ['.', '!', '=', '<', '>']) ∧
      ∀ c ∈ o.text[j + 1]?, c ∈ ['.', '=', '<'] := by
  have hall : ∀ o ∈ all, ∀ j ∈ List.range o.text.length, j + 1 < o.text.length →
      (∀ c ∈ o.text[j]?, c ∈ ['.', '!', '=', '<', '>']) ∧
        ∀ c ∈ o.text[j + 1]?, c ∈ ['.', '=', '<'] := by
    decide +kernel
  exact hall o o.mem_all j (List.mem_range.mpr (by omega)) hj

end RangeOperator

section Lacking

variable {t : Text} (h : ∀ core ∈ operatorCores, ¬ core <:+: t)

include h

theorem not_infix_of_cores (o : RangeOperator) : ¬ o.text <:+: t := by
  intro hinfix
  obtain ⟨core, hcore, hpart⟩ := o.exists_core
  exact h core hcore (hpart.trans hinfix)

theorem not_mem_of_cores {c : Char} (hc : [c] ∈ operatorCores) : c ∉ t :=
  fun hmem => h [c] hc ((List.singleton_infix_iff c t).mpr hmem)

end Lacking

namespace Separated

variable {l r : Text} {o p : RangeOperator} {k : Nat}

/-- The left part does not end like the front of an operator. -/
theorem last_not_mem (h : Separated l r) {c : Char} (hc : l.getLast? = some c) :
    c ∉ ['.', '!', '=', '<', '>'] := by
  have hmem : c ∈ l := List.mem_of_getLast? hc
  have hend := h.left_end c hc
  have hbelow : '<' ∉ l := not_mem_of_cores h.left (by decide)
  have habove : '>' ∉ l := not_mem_of_cores h.left (by decide)
  simp only [List.mem_cons, List.not_mem_nil, or_false, not_or] at hend ⊢
  refine ⟨hend.1, hend.2.1, hend.2.2, ?_, ?_⟩
  · rintro rfl
    exact hbelow hmem
  · rintro rfl
    exact habove hmem

/-- The right part does not begin like the end of an operator. -/
theorem first_not_mem (h : Separated l r) {c : Char} (hc : r.head? = some c) :
    c ∉ ['.', '=', '<'] := by
  have hmem : c ∈ r := List.mem_of_head? hc
  have hstart := h.right_start c hc
  have hbelow : '<' ∉ r := not_mem_of_cores h.right (by decide)
  simp only [List.mem_cons, List.not_mem_nil, or_false, not_or] at hstart ⊢
  refine ⟨hstart.1, hstart.2, ?_⟩
  rintro rfl
  exact hbelow hmem

theorem start_le (h : Separated l r) (hoccurs : p.text <+: (l ++ (o.text ++ r)).drop k) :
    l.length ≤ k := by
  by_contra hlt
  by_cases hend : k + p.text.length ≤ l.length
  · exact not_infix_of_cores h.left p (infix_of_occurs (occurs_left hoccurs hend))
  · obtain ⟨j, hj, hlast, -⟩ := occurs_across hoccurs (by omega) (by omega)
    have hchar := List.getElem?_eq_getElem (Nat.lt_of_succ_lt hj)
    exact h.last_not_mem (hlast.trans hchar) ((RangeOperator.seam hj).1 _ hchar)

theorem le_stop (h : Separated l r) (hoccurs : p.text <+: (o.text ++ r).drop k) :
    k + p.text.length ≤ o.text.length := by
  by_contra hlt
  by_cases hstart : o.text.length ≤ k
  · exact not_infix_of_cores h.right p (infix_of_occurs (occurs_right hoccurs hstart))
  · obtain ⟨j, hj, -, hfirst⟩ := occurs_across hoccurs (by omega) (by omega)
    have hchar := List.getElem?_eq_getElem hj
    exact h.first_not_mem (hfirst.trans hchar) ((RangeOperator.seam hj).2 _ hchar)

/-- Whatever operator occurs, it does so within the operator in the middle. -/
theorem occurs_within (h : Separated l r)
    (hoccurs : p.text <+: (l ++ (o.text ++ r)).drop k) :
    ∃ i, k = l.length + i ∧ i + p.text.length ≤ o.text.length ∧ p.text <:+: o.text := by
  have hle := h.start_le hoccurs
  have hright := occurs_right hoccurs hle
  have hstop := h.le_stop hright
  exact ⟨k - l.length, by omega, hstop, infix_of_occurs (occurs_left hright hstop)⟩

/-- The operator in the middle is matched. -/
theorem mem_operatorMatches (h : Separated l r) :
    ⟨o, l.length⟩ ∈ operatorMatches (l ++ (o.text ++ r)) := by
  have hmiddle : o.text <+: (l ++ (o.text ++ r)).drop l.length := by
    rw [List.drop_left]
    exact List.prefix_append _ _
  -- wherever the operator occurs, it occurs in the middle
  have hstart : ∀ k, o.text <+: (l ++ (o.text ++ r)).drop k → k = l.length := by
    intro k hoccurs
    obtain ⟨i, rfl, hle, -⟩ := h.occurs_within hoccurs
    omega
  obtain ⟨k, hk, -⟩ := exists_mem_occurrences o.text_ne_nil hmiddle
  obtain rfl := hstart k (prefix_of_mem_occurrences hk)
  have hfree : Unclaimed (l ++ (o.text ++ r)) (claimedBefore (l ++ (o.text ++ r)) o) o
      ⟨l.length, o.text.length⟩ := by
    refine ⟨rfl, hmiddle, fun c hc _ => ?_⟩
    obtain ⟨p, hp, -, hoccurs⟩ := mem_claimedBefore hc
    obtain ⟨i, -, -, hinfix⟩ := h.occurs_within hoccurs
    exact RangeOperator.not_infix_of_before hp hinfix
  have hfirst : FirstFree (l ++ (o.text ++ r)) o ⟨l.length, o.text.length⟩ := by
    refine ⟨hfree, fun s hs => ?_⟩
    exact (hstart s.start hs.occurs).ge
  exact mem_operatorMatches_iff.mpr (head?_unclaimed_of_firstFree hfirst hk)

/-- Every match lies within the operator in the middle, so there is room for one only. -/
theorem operatorMatches_eq (h : Separated l r) :
    operatorMatches (l ++ (o.text ++ r)) = [⟨o, l.length⟩] := by
  obtain ⟨before, behind, hms⟩ := List.append_of_mem (h.mem_operatorMatches (o := o))
  have hoverlaps : ∀ m ∈ operatorMatches (l ++ (o.text ++ r)),
      m.span.Overlaps (OperatorMatch.span ⟨o, l.length⟩) ∧
        (OperatorMatch.span ⟨o, l.length⟩).Overlaps m.span := by
    intro m hm
    obtain ⟨i, hi, hle, -⟩ := h.occurs_within (sound_of_mem hm)
    have hpos := List.length_pos_iff.mpr m.operator.text_ne_nil
    simp only [Span.Overlaps, OperatorMatch.span, Span.stop, hi]
    omega
  have hpairwise := pairwise_matchesFrom (l ++ (o.text ++ r)) RangeOperator.all []
  change (operatorMatches (l ++ (o.text ++ r))).Pairwise _ at hpairwise
  rw [hms] at hoverlaps hpairwise ⊢
  obtain ⟨-, hbehind, hbefore⟩ := List.pairwise_append.mp hpairwise
  have hnone : before = [] := by
    refine List.eq_nil_iff_forall_not_mem.mpr fun m hm => ?_
    exact hbefore m hm _ List.mem_cons_self (hoverlaps m (by simp [hm])).2
  have hnone' : behind = [] := by
    refine List.eq_nil_iff_forall_not_mem.mpr fun m hm => ?_
    exact (List.pairwise_cons.mp hbehind).1 m hm (hoverlaps m (by simp [hm])).1
  rw [hnone, hnone', List.nil_append]

end Separated

section Unmatched

theorem unclaimed_eq_nil_of_matchesFrom {constraint : Text} {os : List RangeOperator}
    {claimed : List Span} (h : matchesFrom constraint claimed os = []) :
    ∀ o ∈ os, unclaimed constraint claimed o = [] := by
  induction os with
  | nil => simp
  | cons o os ih =>
    rw [matchesFrom_cons, List.append_eq_nil_iff] at h
    obtain ⟨hfirst, hrest⟩ := h
    have hnone : unclaimed constraint claimed o = [] := by simpa using hfirst
    rw [hnone, List.append_nil] at hrest
    exact List.forall_mem_cons.mpr ⟨hnone, ih hrest⟩

/-- Nothing is matched only where there is nothing to match. -/
theorem operatorMatches_eq_nil_iff {constraint : Text} :
    operatorMatches constraint = [] ↔ ∀ o : RangeOperator, ¬ o.text <:+: constraint := by
  constructor
  · intro hnil o hinfix
    obtain ⟨k, hoccurs⟩ := exists_occurs_of_infix hinfix
    obtain ⟨p, hp, -⟩ := exists_mem_occurrences o.text_ne_nil hoccurs
    have hunclaimed := unclaimed_eq_nil_of_matchesFrom hnil o o.mem_all
    have hmem : (⟨p, o.text.length⟩ : Span) ∈ unclaimed constraint [] o :=
      mem_unclaimed_iff.mpr ⟨hp, rfl, prefix_of_mem_occurrences hp, by simp⟩
    rw [hunclaimed] at hmem
    cases hmem
  · intro hnone
    refine List.eq_nil_iff_forall_not_mem.mpr fun m hm => ?_
    exact hnone m.operator (infix_of_occurs (sound_of_mem hm))

/-- A requirement is written as a lower bound only if there is no match. -/
theorem requirement_eq_from_iff {constraint : Text} :
    requirement constraint = "from: ".toList ++ quoted constraint ↔
      operatorMatches constraint = [] := by
  constructor
  · intro heq
    by_contra hmatches
    have hspell : spell (requirementTokens constraint) =
        spell (marks "from: ".toList ++ [.literal constraint]) := by
      rw [spell_requirementTokens, heq]
      simp [Token.text]
    have hplain : ∀ t ∈ marks "from: ".toList ++ [Token.literal constraint], t.Plain := by
      simp [Token.Plain]
    have htokens := spell_injective (plain_requirementTokens constraint) hplain hspell
    exact requirementTokens_ne_from hmatches _ htokens
  · intro hnil
    rw [requirement, hnil]

end Unmatched

theorem operatorPiece_middle (o : RangeOperator) (l r : Text) :
    operatorPiece (l ++ (o.text ++ r)) ⟨o, l.length⟩ =
      if l = [] then o.text ++ quoted r
      else if r = [] then quoted l ++ o.text
      else quoted l ++ (o.text ++ quoted r) := by
  have hright : (l ++ (o.text ++ r)).drop (l.length + o.text.length) = r := by
    rw [← List.drop_drop, List.drop_left, List.drop_left]
  rw [operatorPiece, hright, List.take_left]
  by_cases hl : l = []
  · simp [hl]
  · by_cases hr : r = []
    · simp [hl, hr]
    · simp [hl, hr]

/-- A constraint without operators is a lower bound, and only such a one. With one operator between
separated texts, the operator is the only match and the texts around it are its bounds. -/
theorem requirement_separated :
    (∀ s : Text, requirement s = "from: ".toList ++ quoted s ↔
      ∀ o : RangeOperator, ¬ o.text <:+: s) ∧
    ∀ (o : RangeOperator) (l r : Text), Separated l r →
      operatorMatches (l ++ (o.text ++ r)) = [⟨o, l.length⟩] ∧
      OperatorMatch.position (l ++ (o.text ++ r)) ⟨o, l.length⟩ = utf8Length l ∧
      requirement (l ++ (o.text ++ r)) =
        if l = [] then o.text ++ quoted r
        else if r = [] then quoted l ++ o.text
        else quoted l ++ (o.text ++ quoted r) := by
  refine ⟨fun s => requirement_eq_from_iff.trans operatorMatches_eq_nil_iff, ?_⟩
  intro o l r h
  have hmatches := h.operatorMatches_eq (o := o)
  refine ⟨hmatches, ?_, ?_⟩
  · rw [OperatorMatch.position, List.take_left]
  · rw [requirement, hmatches]
    exact (List.append_nil _).trans (operatorPiece_middle o l r)

/-- A dot, an equals sign and an exclamation mark near the operator do no harm. -/
theorem requirement_separated_dots :
    Separated ".=1.é".toList "!.=2".toList ∧
    operatorMatches ".=1.é..<!.=2".toList = [⟨.halfOpenRange, 5⟩] ∧
    OperatorMatch.position ".=1.é..<!.=2".toList ⟨.halfOpenRange, 5⟩ = 6 ∧
    requirement ".=1.é..<!.=2".toList =
      quoted ".=1.é".toList ++ ("..<".toList ++ quoted "!.=2".toList) := by
  have h : Separated ".=1.é".toList "!.=2".toList :=
    ⟨by decide, by decide, by decide, by decide⟩
  exact ⟨h, requirement_separated.2 .halfOpenRange _ _ h⟩

end SwiftManifest
