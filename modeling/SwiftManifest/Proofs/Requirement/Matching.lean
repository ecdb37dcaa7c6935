import SwiftManifest.Requirement.Matching

/-! Every match of an operator stands where the constraint has the text of the operator, and no two
matches overlap. -/

namespace SwiftManifest

namespace RangeOperator

theorem mem_all (o : RangeOperator) : o ∈ all := by
  cases o <;> decide

theorem text_ne_nil (o : RangeOperator) : o.text ≠ [] := by
  cases o <;> decide

end RangeOperator

namespace OperatorMatch

def span (m : OperatorMatch) : Span := ⟨m.start, m.operator.text.length⟩

/-- The text behind the operator. -/
def right (constraint : Text) (m : OperatorMatch) : Text :=
  constraint.drop (m.start + m.operator.text.length)

def Sound (constraint : Text) (m : OperatorMatch) : Prop :=
  m.operator.text <+: constraint.drop m.start

theorem Sound.split {constraint : Text} {m : OperatorMatch} (h : m.Sound constraint) :
    constraint = constraint.take m.start ++ (m.operator.text ++ m.right constraint) := by
  rcases h with ⟨rest, hrest⟩
  have hright : m.right constraint = rest := by
    rw [right, ← List.drop_drop, ← hrest, List.drop_left]
  rw [hright, hrest, List.take_append_drop]

theorem Sound.stop_le {constraint : Text} {m : OperatorMatch} (h : m.Sound constraint) :
    m.span.stop ≤ constraint.length := by
  have hlength := h.length_le
  have hpos := List.length_pos_iff.mpr m.operator.text_ne_nil
  rw [List.length_drop] at hlength
  simp only [span, Span.stop]
  omega

theorem le_stop_of_right {constraint : Text} {m : OperatorMatch} (h : m.right constraint = []) :
    constraint.length ≤ m.span.stop :=
  List.drop_eq_nil_iff.mp h

end OperatorMatch

theorem mem_occurrencesFrom {pattern cs : Text} {start skip p : Nat}
    (h : p ∈ occurrencesFrom pattern start skip cs) :
    ∃ k, p = start + k ∧ pattern <+: cs.drop k := by
  induction cs generalizing start skip with
  | nil => simp [occurrencesFrom] at h
  | cons c cs ih =>
    have later : ∀ skip, p ∈ occurrencesFrom pattern (start + 1) skip cs →
        ∃ k, p = start + k ∧ pattern <+: (c :: cs).drop k := by
      intro skip hlater
      obtain ⟨k, rfl, hprefix⟩ := ih hlater
      exact ⟨k + 1, by omega, by simpa using hprefix⟩
    cases skip with
    | succ skip => exact later skip h
    | zero =>
      rw [occurrencesFrom] at h
      split at h
      · rename_i hprefix
        rcases List.mem_cons.mp h with rfl | hlater
        · exact ⟨0, rfl, by simpa using hprefix⟩
        · exact later _ hlater
      · exact later 0 h

theorem prefix_of_mem_occurrences {pattern cs : Text} {p : Nat}
    (h : p ∈ occurrences pattern cs) : pattern <+: cs.drop p := by
  obtain ⟨k, rfl, hprefix⟩ := mem_occurrencesFrom h
  rwa [Nat.zero_add]

structure Unclaimed (constraint : Text) (claimed : List Span) (o : RangeOperator) (s : Span) :
    Prop where
  length : s.length = o.text.length
  occurs : o.text <+: constraint.drop s.start
  free : ∀ c ∈ claimed, ¬ s.Overlaps c

theorem mem_unclaimed {constraint : Text} {claimed : List Span} {o : RangeOperator} {s : Span}
    (h : s ∈ unclaimed constraint claimed o) : Unclaimed constraint claimed o s := by
  rw [unclaimed, List.mem_filter, List.mem_map] at h
  rcases h with ⟨⟨start, hstart, rfl⟩, hfree⟩
  exact ⟨rfl, prefix_of_mem_occurrences hstart, by simpa using hfree⟩

theorem matchesFrom_cons (constraint : Text) (claimed : List Span) (o : RangeOperator)
    (os : List RangeOperator) :
    matchesFrom constraint claimed (o :: os) =
      ((unclaimed constraint claimed o).head?.map fun s => ⟨o, s.start⟩).toList ++
        matchesFrom constraint (claimed ++ unclaimed constraint claimed o) os := by
  rw [matchesFrom]
  split <;> simp_all

/-- The match of an operator is the first of the spans that it claims. -/
theorem mem_first {constraint : Text} {claimed : List Span} {o : RangeOperator}
    {m : OperatorMatch}
    (h : m ∈ ((unclaimed constraint claimed o).head?.map fun s => ⟨o, s.start⟩).toList) :
    m.span ∈ unclaimed constraint claimed o ∧ m.operator = o := by
  obtain ⟨s, hs, rfl⟩ : ∃ s, (unclaimed constraint claimed o).head? = some s ∧
      ⟨o, s.start⟩ = m := by simpa using h
  have hmem := List.mem_of_head? hs
  have hspan : OperatorMatch.span ⟨o, s.start⟩ = s := by
    rw [OperatorMatch.span, ← (mem_unclaimed hmem).length]
  exact ⟨by rwa [hspan], rfl⟩

theorem mem_matchesFrom {constraint : Text} {os : List RangeOperator} {claimed : List Span}
    {m : OperatorMatch} (h : m ∈ matchesFrom constraint claimed os) :
    m.Sound constraint ∧ ∀ c ∈ claimed, ¬ m.span.Overlaps c := by
  induction os generalizing claimed with
  | nil => simp [matchesFrom] at h
  | cons o os ih =>
    rw [matchesFrom_cons] at h
    rcases List.mem_append.mp h with hfirst | hrest
    · obtain ⟨hspan, rfl⟩ := mem_first hfirst
      have hunclaimed := mem_unclaimed hspan
      exact ⟨hunclaimed.occurs, hunclaimed.free⟩
    · obtain ⟨hsound, hfree⟩ := ih hrest
      refine ⟨hsound, ?_⟩
      intro c hc
      exact hfree c (List.mem_append_left _ hc)

/-- Later matches keep clear of everything that the earlier operators have claimed. -/
theorem pairwise_matchesFrom (constraint : Text) (os : List RangeOperator) (claimed : List Span) :
    (matchesFrom constraint claimed os).Pairwise fun a b => ¬ b.span.Overlaps a.span := by
  induction os generalizing claimed with
  | nil => simp [matchesFrom]
  | cons o os ih =>
    rw [matchesFrom_cons, List.pairwise_append]
    refine ⟨?_, ih _, ?_⟩
    · cases (unclaimed constraint claimed o).head? <;> simp
    · intro a ha b hb
      exact (mem_matchesFrom hb).2 a.span (List.mem_append_right _ (mem_first ha).1)

theorem sound_of_mem {constraint : Text} {m : OperatorMatch} (h : m ∈ operatorMatches constraint) :
    m.Sound constraint :=
  (mem_matchesFrom h).1

/-- At most one operator ends the constraint: two would overlap. -/
theorem right_ne_nil {constraint : Text} {m n : OperatorMatch} {ms : List OperatorMatch}
    (h : operatorMatches constraint = m :: ms) (hn : n ∈ ms) (hm : m.right constraint = []) :
    n.right constraint ≠ [] := by
  intro hright
  have hpairwise := pairwise_matchesFrom constraint RangeOperator.all []
  change (operatorMatches constraint).Pairwise _ at hpairwise
  rw [h, List.pairwise_cons] at hpairwise
  refine hpairwise.1 n hn ?_
  have hstop := (sound_of_mem (h ▸ List.mem_cons_self)).stop_le
  have hstop' := (sound_of_mem (h ▸ List.mem_cons_of_mem m hn)).stop_le
  have hend := OperatorMatch.le_stop_of_right hm
  have hend' := OperatorMatch.le_stop_of_right hright
  have hpos := List.length_pos_iff.mpr m.operator.text_ne_nil
  have hpos' := List.length_pos_iff.mpr n.operator.text_ne_nil
  simp only [OperatorMatch.span, Span.stop] at hstop hstop' hend hend'
  simp only [Span.Overlaps, OperatorMatch.span, Span.stop]
  omega

end SwiftManifest
