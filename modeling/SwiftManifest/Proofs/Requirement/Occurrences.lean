import SwiftManifest.Proofs.Requirement.Matching

/-! Where an operator occurs. The search from left to right finds an occurrence, or has found one
that reaches into it. Places in the constraint and places in its UTF-8 form are in the same order. -/

namespace SwiftManifest

section Search

variable {pattern : Text}

theorem le_of_mem_occurrencesFrom {cs : Text} {start skip p : Nat}
    (h : p ∈ occurrencesFrom pattern start skip cs) : start + skip ≤ p := by
  induction cs generalizing start skip with
  | nil => simp [occurrencesFrom] at h
  | cons c cs ih =>
    cases skip with
    | succ skip =>
      have hle := ih h
      omega
    | zero =>
      rw [occurrencesFrom] at h
      split at h
      · rcases List.mem_cons.mp h with rfl | hlater
        · omega
        · have hle := ih hlater
          omega
      · have hle := ih h
        omega

/-- What is found does not overlap. -/
theorem pairwise_occurrencesFrom (hne : pattern ≠ []) (cs : Text) (start skip : Nat) :
    (occurrencesFrom pattern start skip cs).Pairwise fun p q => p + pattern.length ≤ q := by
  have hpos := List.length_pos_iff.mpr hne
  induction cs generalizing start skip with
  | nil => simp [occurrencesFrom]
  | cons c cs ih =>
    cases skip with
    | succ skip => exact ih _ _
    | zero =>
      rw [occurrencesFrom]
      split
      · refine List.pairwise_cons.mpr ⟨?_, ih _ _⟩
        intro q hq
        have hle := le_of_mem_occurrencesFrom hq
        omega
      · exact ih _ _

theorem apart_of_mem_occurrencesFrom (hne : pattern ≠ []) {cs : Text} {start skip p q : Nat}
    (hp : p ∈ occurrencesFrom pattern start skip cs)
    (hq : q ∈ occurrencesFrom pattern start skip cs) (hlt : p < q) : p + pattern.length ≤ q := by
  have happart := List.pairwise_iff_getElem.mp (pairwise_occurrencesFrom hne cs start skip)
  obtain ⟨i, hi, rfl⟩ := List.mem_iff_getElem.mp hp
  obtain ⟨j, hj, rfl⟩ := List.mem_iff_getElem.mp hq
  rcases Nat.lt_trichotomy i j with hij | rfl | hji
  · exact happart i j hi hj hij
  · exact absurd hlt (Nat.lt_irrefl _)
  · have hle := happart j i hj hi hji
    omega

/-- An occurrence is found, or the end of one that is found lies inside of it. -/
theorem exists_mem_occurrencesFrom (hne : pattern ≠ []) {cs : Text} (start : Nat) {skip k : Nat}
    (hskip : skip ≤ k) (hoccurs : pattern <+: cs.drop k) :
    ∃ p ∈ occurrencesFrom pattern start skip cs,
      p ≤ start + k ∧ start + k < p + pattern.length := by
  have hpos := List.length_pos_iff.mpr hne
  induction cs generalizing start skip k with
  | nil => simp [hne] at hoccurs
  | cons c cs ih =>
    -- the search goes on behind the first character and comes to the occurrence there
    have behind : ∀ skip' k', k = k' + 1 → skip' ≤ k' →
        ∃ p ∈ occurrencesFrom pattern (start + 1) skip' cs,
          p ≤ start + k ∧ start + k < p + pattern.length := by
      rintro skip' k' rfl hle
      obtain ⟨p, hp, hlower, hupper⟩ := ih (start + 1) hle (by simpa using hoccurs)
      exact ⟨p, hp, by omega, by omega⟩
    cases skip with
    | succ skip =>
      obtain ⟨k', rfl⟩ : ∃ k', k = k' + 1 := ⟨k - 1, by omega⟩
      exact behind skip k' rfl (by omega)
    | zero =>
      rw [occurrencesFrom]
      split
      · by_cases hk : k < pattern.length
        · exact ⟨start, List.mem_cons_self, by omega, by omega⟩
        · obtain ⟨p, hp, hbounds⟩ := behind (pattern.length - 1) (k - 1) (by omega) (by omega)
          exact ⟨p, List.mem_cons_of_mem _ hp, hbounds⟩
      · rename_i hprefix
        have hk : k ≠ 0 := by
          rintro rfl
          exact hprefix (by simpa using hoccurs)
        exact behind 0 (k - 1) (by omega) (by omega)

theorem exists_mem_occurrences (hne : pattern ≠ []) {cs : Text} {k : Nat}
    (hoccurs : pattern <+: cs.drop k) :
    ∃ p ∈ occurrences pattern cs, p ≤ k ∧ k < p + pattern.length := by
  obtain ⟨p, hp, hlower, hupper⟩ := exists_mem_occurrencesFrom hne 0 (Nat.zero_le k) hoccurs
  exact ⟨p, hp, by omega, by omega⟩

end Search

section Position

theorem utf8Length_append (t u : Text) : utf8Length (t ++ u) = utf8Length t + utf8Length u := by
  induction t with
  | nil => simp [utf8Length]
  | cons c cs ih => simp [utf8Length, ih, Nat.add_assoc]

theorem utf8Length_pos {t : Text} (h : t ≠ []) : 0 < utf8Length t := by
  cases t with
  | nil => contradiction
  | cons c cs =>
    have hpos := c.utf8Size_pos
    simp only [utf8Length]
    omega

theorem utf8Length_take_lt {t : Text} {i j : Nat} (hij : i < j) (hj : j ≤ t.length) :
    utf8Length (t.take i) < utf8Length (t.take j) := by
  obtain ⟨k, rfl⟩ := Nat.exists_eq_add_of_le (Nat.le_of_lt hij)
  have hne : (t.drop i).take k ≠ [] := by
    rw [← List.length_pos_iff, List.length_take, List.length_drop]
    omega
  have hpos := utf8Length_pos hne
  rw [List.take_add, utf8Length_append]
  omega

theorem utf8Length_take_lt_iff {t : Text} {i j : Nat} (hi : i ≤ t.length) (hj : j ≤ t.length) :
    utf8Length (t.take i) < utf8Length (t.take j) ↔ i < j := by
  refine ⟨fun h => ?_, fun h => utf8Length_take_lt h hj⟩
  rcases Nat.lt_trichotomy i j with hlt | rfl | hgt
  · exact hlt
  · exact absurd h (Nat.lt_irrefl _)
  · exact absurd h (Nat.lt_asymm (utf8Length_take_lt hgt hi))

theorem utf8Length_take_le_iff {t : Text} {i j : Nat} (hi : i ≤ t.length) (hj : j ≤ t.length) :
    utf8Length (t.take i) ≤ utf8Length (t.take j) ↔ i ≤ j := by
  rw [← Nat.not_lt, ← Nat.not_lt, utf8Length_take_lt_iff hj hi]

theorem utf8Length_take_inj {t : Text} {i j : Nat} (hi : i ≤ t.length) (hj : j ≤ t.length) :
    utf8Length (t.take i) = utf8Length (t.take j) ↔ i = j := by
  rw [Nat.eq_iff_le_and_ge, Nat.eq_iff_le_and_ge, utf8Length_take_le_iff hi hj,
    utf8Length_take_le_iff hj hi]

end Position

namespace Span

/-- The bytes of a span in the UTF-8 form of the constraint. -/
def bytes (constraint : Text) (s : Span) : Span :=
  ⟨utf8Length (constraint.take s.start), utf8Length ((constraint.drop s.start).take s.length)⟩

theorem start_bytes (constraint : Text) (s : Span) :
    (s.bytes constraint).start = utf8Length (constraint.take s.start) := rfl

theorem stop_bytes (constraint : Text) (s : Span) :
    (s.bytes constraint).stop = utf8Length (constraint.take s.stop) := by
  simp only [bytes, stop, List.take_add, utf8Length_append]

/-- Spans share a byte if and only if they share a character. -/
theorem overlaps_bytes_iff {constraint : Text} {s t : Span} (hs : s.stop ≤ constraint.length)
    (ht : t.stop ≤ constraint.length) :
    (s.bytes constraint).Overlaps (t.bytes constraint) ↔ s.Overlaps t := by
  have hstart : s.start ≤ s.stop := Nat.le_add_right _ _
  have hstart' : t.start ≤ t.stop := Nat.le_add_right _ _
  simp only [Overlaps, start_bytes, stop_bytes]
  rw [utf8Length_take_lt_iff (by omega) ht, utf8Length_take_lt_iff (by omega) hs]

end Span

end SwiftManifest
