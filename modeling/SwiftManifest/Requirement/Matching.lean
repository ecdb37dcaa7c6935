import SwiftManifest.Requirement.Operator

/-! Which operators a version constraint contains, and where. Each operator in turn claims its
occurrences; an occurrence that overlaps claimed text is not a match of its own. -/

namespace SwiftManifest

/-- A stretch of characters of a constraint. -/
structure Span where
  start : Nat
  length : Nat
  deriving DecidableEq, Repr

namespace Span

def stop (s : Span) : Nat := s.start + s.length

def Overlaps (s t : Span) : Prop := s.start < t.stop ∧ t.start < s.stop

instance (s t : Span) : Decidable (s.Overlaps t) :=
  inferInstanceAs (Decidable (_ ∧ _))

end Span

/-- An operator at its first unclaimed place; `start` counts the characters before it. -/
structure OperatorMatch where
  operator : RangeOperator
  start : Nat
  deriving DecidableEq, Repr

namespace OperatorMatch

/-- The place of a match in the UTF-8 form of the constraint. -/
def position (constraint : Text) (m : OperatorMatch) : Nat :=
  utf8Length (constraint.take m.start)

end OperatorMatch

/-- Starts of the occurrences of a pattern, found from left to right. The search goes on behind an
occurrence, so no two of them overlap: `skip` characters are left of the last one, and `start` is
the place of the first character at hand. -/
def occurrencesFrom (pattern : Text) : (start skip : Nat) → Text → List Nat
  | _, _, [] => []
  | start, skip + 1, _ :: cs => occurrencesFrom pattern (start + 1) skip cs
  | start, 0, c :: cs =>
    if pattern.isPrefixOf (c :: cs) then
      start :: occurrencesFrom pattern (start + 1) (pattern.length - 1) cs
    else
      occurrencesFrom pattern (start + 1) 0 cs

def occurrences (pattern constraint : Text) : List Nat :=
  occurrencesFrom pattern 0 0 constraint

/-- The occurrences of an operator that overlap no claimed span. -/
def unclaimed (constraint : Text) (claimed : List Span) (o : RangeOperator) : List Span :=
  ((occurrences o.text constraint).map fun start => ⟨start, o.text.length⟩).filter
    fun s => ∀ c ∈ claimed, ¬ s.Overlaps c

def matchesFrom (constraint : Text) : List Span → List RangeOperator → List OperatorMatch
  | _, [] => []
  | claimed, o :: os =>
    let fresh := unclaimed constraint claimed o
    let rest := matchesFrom constraint (claimed ++ fresh) os
    match fresh with
    | [] => rest
    | s :: _ => ⟨o, s.start⟩ :: rest

def operatorMatches (constraint : Text) : List OperatorMatch :=
  matchesFrom constraint [] RangeOperator.all

end SwiftManifest
