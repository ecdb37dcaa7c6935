import SwiftManifest.Proofs.Requirement.Occurrences
import Mathlib.Data.List.Infix
import Mathlib.Order.Nat

/-! Whether an operator is matched at its first free occurrence: the first one, overlapping ones
included, that shares nothing with what earlier operators have claimed. An occurrence that is found
but refused still hides a free one that it overlaps. This befalls `==` right behind `!=`, and no
other operator. -/

namespace SwiftManifest

/-- Everything that is claimed when the operators have had their turns. -/
def claimsFrom (constraint : Text) : List Span → List RangeOperator → List Span
  | claimed, [] => claimed
  | claimed, o :: os => claimsFrom constraint (claimed ++ unclaimed constraint claimed o) os

/-- The spans that the operators declared before `o` claim. -/
def claimedBefore (constraint : Text) (o : RangeOperator) : List Span :=
  claimsFrom constraint [] (RangeOperator.all.takeWhile (· ≠ o))

/-- An occurrence of the operator starts at byte `p` and shares no byte with a claimed span. -/
def FreeAt (constraint : Text) (o : RangeOperator) (p : Nat) : Prop :=
  ∃ s : Span, s.length = o.text.length ∧ o.text <+: constraint.drop s.start ∧
    (s.bytes constraint).start = p ∧
    ∀ c ∈ claimedBefore constraint o, ¬ (s.bytes constraint).Overlaps (c.bytes constraint)

/-- The operator is matched at its first free occurrence, and not at all if there is none. -/
def MatchedFirst (constraint : Text) (o : RangeOperator) : Prop :=
  ∀ p, (∃ m ∈ operatorMatches constraint, m.operator = o ∧ m.position constraint = p) ↔
    IsLeast {p | FreeAt constraint o p} p

section Claims

theorem mem_claimsFrom {constraint : Text} {os : List RangeOperator} {claimed : List Span}
    {c : Span} (h : c ∈ claimsFrom constraint claimed os) :
    c ∈ claimed ∨ ∃ o ∈ os, c.length = o.text.length ∧ o.text <+: constraint.drop c.start := by
  induction os generalizing claimed with
  | nil => exact .inl h
  | cons o os ih =>
    rcases ih h with hc | ⟨o', ho', hoccurs⟩
    · rcases List.mem_append.mp hc with hold | hfresh
      · exact .inl hold
      · have hunclaimed := mem_unclaimed hfresh
        exact .inr ⟨o, List.mem_cons_self, hunclaimed.length, hunclaimed.occurs⟩
    · exact .inr ⟨o', List.mem_cons_of_mem _ ho', hoccurs⟩

theorem mem_claimedBefore {constraint : Text} {o : RangeOperator} {c : Span}
    (h : c ∈ claimedBefore constraint o) :
    ∃ o' ∈ RangeOperator.all.takeWhile (· ≠ o),
      c.length = o'.text.length ∧ o'.text <+: constraint.drop c.start := by
  rcases mem_claimsFrom h with hnil | hoccurs
  · cases hnil
  · exact hoccurs

/-- The matches are, for every operator in its turn, the first of the spans that it claims. -/
theorem mem_matchesFrom_iff {constraint : Text} {os : List RangeOperator} (hos : os.Nodup)
    {claimed : List Span} {m : OperatorMatch} :
    m ∈ matchesFrom constraint claimed os ↔ m.operator ∈ os ∧
      (unclaimed constraint
        (claimsFrom constraint claimed (os.takeWhile (· ≠ m.operator))) m.operator).head? =
          some m.span := by
  induction os generalizing claimed with
  | nil => simp [matchesFrom]
  | cons o os ih =>
    obtain ⟨hnotmem, hnodup⟩ := List.nodup_cons.mp hos
    rw [matchesFrom_cons, List.mem_append, ih hnodup]
    by_cases ho : o = m.operator
    · subst ho
      have hfirst : m ∈ ((unclaimed constraint claimed m.operator).head?.map
          fun s => ⟨m.operator, s.start⟩).toList ↔
          (unclaimed constraint claimed m.operator).head? = some m.span := by
        constructor
        · intro h
          obtain ⟨s, hs, hm⟩ : ∃ s, (unclaimed constraint claimed m.operator).head? = some s ∧
              OperatorMatch.mk m.operator s.start = m := by simpa using h
          have hlength := (mem_unclaimed (List.mem_of_head? hs)).length
          have hspan : s = m.span := by
            rw [← hm, OperatorMatch.span, ← hlength]
          rw [hs, hspan]
        · intro h
          rw [h]
          simp [OperatorMatch.span]
      simp [hfirst, hnotmem, claimsFrom]
    · have hother : m ∉ ((unclaimed constraint claimed o).head?.map
          fun s => ⟨o, s.start⟩).toList := fun h => ho (mem_first h).2.symm
      simp [hother, ho, Ne.symm ho, claimsFrom]

theorem mem_operatorMatches_iff {constraint : Text} {m : OperatorMatch} :
    m ∈ operatorMatches constraint ↔
      (unclaimed constraint (claimedBefore constraint m.operator) m.operator).head? =
        some m.span := by
  rw [operatorMatches, mem_matchesFrom_iff (by decide)]
  simp [claimedBefore, m.operator.mem_all]

end Claims

section Bytes

variable {constraint : Text} {o : RangeOperator}

theorem stop_le_of_occurs {s : Span} (hlength : s.length = o.text.length)
    (hoccurs : o.text <+: constraint.drop s.start) : s.stop ≤ constraint.length := by
  have hspan : OperatorMatch.span ⟨o, s.start⟩ = s := by rw [OperatorMatch.span, ← hlength]
  have hsound : OperatorMatch.Sound constraint ⟨o, s.start⟩ := hoccurs
  exact hspan ▸ hsound.stop_le

theorem Unclaimed.stop_le {claimed : List Span} {s : Span} (h : Unclaimed constraint claimed o s) :
    s.stop ≤ constraint.length :=
  stop_le_of_occurs h.length h.occurs

theorem stop_le_of_mem_claimedBefore {c : Span} (h : c ∈ claimedBefore constraint o) :
    c.stop ≤ constraint.length := by
  obtain ⟨o', -, hlength, hoccurs⟩ := mem_claimedBefore h
  exact stop_le_of_occurs hlength hoccurs

theorem freeAt_iff {p : Nat} : FreeAt constraint o p ↔
    ∃ s, Unclaimed constraint (claimedBefore constraint o) o s ∧
      (s.bytes constraint).start = p := by
  constructor
  · rintro ⟨s, hlength, hoccurs, hp, hfree⟩
    refine ⟨s, ⟨hlength, hoccurs, fun c hc hoverlaps => hfree c hc ?_⟩, hp⟩
    exact (Span.overlaps_bytes_iff (stop_le_of_occurs hlength hoccurs)
      (stop_le_of_mem_claimedBefore hc)).mpr hoverlaps
  · rintro ⟨s, hs, hp⟩
    refine ⟨s, hs.length, hs.occurs, hp, fun c hc hoverlaps => hs.free c hc ?_⟩
    exact (Span.overlaps_bytes_iff hs.stop_le (stop_le_of_mem_claimedBefore hc)).mp hoverlaps

/-- The first free occurrence, by its place among the characters. -/
structure FirstFree (constraint : Text) (o : RangeOperator) (s : Span) : Prop where
  free : Unclaimed constraint (claimedBefore constraint o) o s
  first : ∀ t, Unclaimed constraint (claimedBefore constraint o) o t → s.start ≤ t.start

theorem isLeast_freeAt_iff {p : Nat} : IsLeast {p | FreeAt constraint o p} p ↔
    ∃ s, FirstFree constraint o s ∧ (s.bytes constraint).start = p := by
  have hle : ∀ s t, Unclaimed constraint (claimedBefore constraint o) o s →
      Unclaimed constraint (claimedBefore constraint o) o t →
      ((s.bytes constraint).start ≤ (t.bytes constraint).start ↔ s.start ≤ t.start) := by
    intro s t hs ht
    exact utf8Length_take_le_iff ((Nat.le_add_right _ _).trans hs.stop_le)
      ((Nat.le_add_right _ _).trans ht.stop_le)
  constructor
  · rintro ⟨hfree, hlower⟩
    obtain ⟨s, hs, rfl⟩ := freeAt_iff.mp hfree
    refine ⟨s, ⟨hs, fun t ht => ?_⟩, rfl⟩
    exact (hle s t hs ht).mp (hlower (freeAt_iff.mpr ⟨t, ht, rfl⟩))
  · rintro ⟨s, hs, rfl⟩
    refine ⟨freeAt_iff.mpr ⟨s, hs.free, rfl⟩, fun q hq => ?_⟩
    obtain ⟨t, ht, rfl⟩ := freeAt_iff.mp hq
    exact (hle s t hs.free ht).mpr (hs.first t ht)

theorem exists_firstFree {s : Span}
    (hs : Unclaimed constraint (claimedBefore constraint o) o s) :
    ∃ t, FirstFree constraint o t := by
  classical
  have hsome : ∃ p, FreeAt constraint o p := ⟨_, freeAt_iff.mpr ⟨s, hs, rfl⟩⟩
  obtain ⟨t, ht, -⟩ := isLeast_freeAt_iff.mp (Nat.isLeast_find hsome)
  exact ⟨t, ht⟩

end Bytes

section Hidden

variable {constraint : Text} {o : RangeOperator}

theorem mem_unclaimed_iff {claimed : List Span} {s : Span} :
    s ∈ unclaimed constraint claimed o ↔
      s.start ∈ occurrences o.text constraint ∧ Unclaimed constraint claimed o s := by
  constructor
  · intro h
    refine ⟨?_, mem_unclaimed h⟩
    rw [unclaimed, List.mem_filter, List.mem_map] at h
    obtain ⟨⟨start, hstart, rfl⟩, -⟩ := h
    exact hstart
  · rintro ⟨hstart, hs⟩
    rw [unclaimed, List.mem_filter, List.mem_map]
    refine ⟨⟨s.start, hstart, ?_⟩, by simpa using hs.free⟩
    rw [← hs.length]

variable (constraint o) in
/-- What an operator claims lies from left to right. -/
theorem pairwise_unclaimed (claimed : List Span) :
    (unclaimed constraint claimed o).Pairwise fun s t => s.start < t.start := by
  have hpos := List.length_pos_iff.mpr o.text_ne_nil
  refine List.Pairwise.filter _ (List.pairwise_map.mpr ?_)
  refine (pairwise_occurrencesFrom o.text_ne_nil constraint 0 0).imp fun hpq => ?_
  simp only
  omega

/-- An operator is matched at its first free occurrence if the search finds that. -/
theorem head?_unclaimed_of_firstFree {s : Span} (hs : FirstFree constraint o s)
    (hfound : s.start ∈ occurrences o.text constraint) :
    (unclaimed constraint (claimedBefore constraint o) o).head? = some s := by
  have hmem := mem_unclaimed_iff.mpr ⟨hfound, hs.free⟩
  obtain ⟨t, ts, hts⟩ := List.exists_cons_of_ne_nil (List.ne_nil_of_mem hmem)
  have hpairwise := pairwise_unclaimed constraint o (claimedBefore constraint o)
  have ht : Unclaimed constraint (claimedBefore constraint o) o t :=
    mem_unclaimed (hts ▸ List.mem_cons_self)
  rw [hts] at hmem hpairwise ⊢
  rcases List.mem_cons.mp hmem with rfl | hlater
  · rfl
  · have hlt := (List.pairwise_cons.mp hpairwise).1 s hlater
    have hle := hs.first t ht
    omega

theorem getElem?_of_occurs {pattern : Text} {i k : Nat} (h : pattern <+: constraint.drop i)
    (hk : k < pattern.length) : constraint[i + k]? = pattern[k]? := by
  rw [← List.getElem?_drop, List.prefix_iff_getElem?.mp h k hk, List.getElem?_eq_getElem hk]

/-- Two occurrences of a pattern, of which the second may begin inside of the first. -/
theorem drop_prefix_of_occurs {pattern : Text} {i j : Nat} (hij : i ≤ j)
    (hi : pattern <+: constraint.drop i) (hj : pattern <+: constraint.drop j) :
    pattern.drop (j - i) <+: pattern := by
  have hdrop : pattern.drop (j - i) <+: constraint.drop j := by
    have hprefix := List.IsPrefix.drop hi (j - i)
    rwa [List.drop_drop, Nat.add_sub_cancel' hij] at hprefix
  exact List.prefix_of_prefix_length_le hdrop hj (by simp)

/-- Two patterns that occur one right behind the other. -/
theorem exists_append_of_occurs {pattern pattern' : Text} {i : Nat}
    (h : pattern <+: constraint.drop i)
    (h' : pattern' <+: constraint.drop (i + pattern.length)) :
    ∃ r, constraint = constraint.take i ++ (pattern ++ pattern' ++ r) := by
  obtain ⟨r, hr⟩ := h
  obtain ⟨r', hr'⟩ := h'
  have hbehind : r = pattern' ++ r' := by
    rw [hr', ← List.drop_drop, ← hr, List.drop_left]
  refine ⟨r', ?_⟩
  rw [List.append_assoc, ← hbehind, hr, List.take_append_drop]

/-- Only `==` can have an occurrence that overlaps, on its left, the end of an earlier operator and,
on its right, another occurrence of its own; and the earlier operator is `!=` then. -/
theorem RangeOperator.eq_of_shift {o p : RangeOperator} (hp : p ∈ all.takeWhile (· ≠ o))
    {d e : Nat} (hd : d < o.text.length) (he : e < d) (hself : o.text.drop d <+: o.text)
    (hlast : o.text[e]? = p.text[p.text.length - 1]?) : o = .equal ∧ p = .notEqual := by
  have hall : ∀ o ∈ all, ∀ p ∈ all.takeWhile (· ≠ o),
      ∀ d ∈ List.range o.text.length, ∀ e ∈ List.range d, o.text.drop d <+: o.text →
        o.text[e]? = p.text[p.text.length - 1]? → o = .equal ∧ p = .notEqual := by
    decide +kernel
  exact hall o o.mem_all p hp d (List.mem_range.mpr hd) e (List.mem_range.mpr he) hself hlast

/-- What is found in front of the first free occurrence is refused. -/
theorem FirstFree.exists_overlaps {s : Span} (hs : FirstFree constraint o s) {j : Nat}
    (hj : o.text <+: constraint.drop j) (hlt : j < s.start) :
    ∃ c ∈ claimedBefore constraint o, Span.Overlaps ⟨j, o.text.length⟩ c := by
  by_contra hnone
  have hfree : Unclaimed constraint (claimedBefore constraint o) o ⟨j, o.text.length⟩ :=
    ⟨rfl, hj, fun c hc hoverlaps => hnone ⟨c, hc, hoverlaps⟩⟩
  exact absurd (hs.first _ hfree) (Nat.not_le.mpr hlt)

/-- The first free occurrence is found, or it is `==` and comes right behind `!=`. -/
theorem FirstFree.found_or_hidden {s : Span} (hs : FirstFree constraint o s) :
    s.start ∈ occurrences o.text constraint ∨
      (o = .equal ∧ ∃ l r, constraint = l ++ ("!===".toList ++ r) ∧ l.length + 2 = s.start) := by
  obtain ⟨j, hj, hlower, hupper⟩ := exists_mem_occurrences o.text_ne_nil hs.free.occurs
  rcases Nat.eq_or_lt_of_le hlower with rfl | hlt
  · exact .inl hj
  · right
    have hoccurs := prefix_of_mem_occurrences hj
    obtain ⟨c, hc, hoverlaps⟩ := hs.exists_overlaps hoccurs hlt
    have hapart := hs.free.free c hc
    obtain ⟨p, hp, hlength, hclaimed⟩ := mem_claimedBefore hc
    have hpos := List.length_pos_iff.mpr p.text_ne_nil
    simp only [Span.Overlaps, Span.stop, hs.free.length] at hoverlaps hapart
    -- the claimed span ends in front of the free occurrence, inside of the refused one
    obtain ⟨e, he⟩ : ∃ e, c.start + (p.text.length - 1) = j + e :=
      ⟨c.start + (p.text.length - 1) - j, by omega⟩
    have hlast : o.text[e]? = p.text[p.text.length - 1]? := by
      rw [← getElem?_of_occurs hoccurs (by omega), ← he,
        getElem?_of_occurs hclaimed (by omega)]
    have hself := drop_prefix_of_occurs hlower hoccurs hs.free.occurs
    obtain ⟨rfl, rfl⟩ := RangeOperator.eq_of_shift hp (by omega) (by omega) hself hlast
    have hstart : s.start = c.start + RangeOperator.notEqual.text.length := by
      have htwo : RangeOperator.equal.text.length = 2 := by decide
      have htwo' : RangeOperator.notEqual.text.length = 2 := by decide
      omega
    obtain ⟨r, hr⟩ := exists_append_of_occurs hclaimed (hstart ▸ hs.free.occurs)
    refine ⟨rfl, constraint.take c.start, r, hr, ?_⟩
    have hle := stop_le_of_mem_claimedBefore hc
    rw [List.length_take_of_le ((Nat.le_add_right _ _).trans hle), hstart]
    rfl

/-- The occurrence that begins inside of `!=` is found, and the search goes on behind it. -/
theorem not_mem_occurrences_hidden (l r : Text) :
    l.length + 2 ∉ occurrences RangeOperator.equal.text (l ++ ("!===".toList ++ r)) := by
  intro hhidden
  have htwo : RangeOperator.equal.text.length = 2 := by decide
  have hne := RangeOperator.text_ne_nil .equal
  have hoccurs : RangeOperator.equal.text <+:
      (l ++ ("!===".toList ++ r)).drop (l.length + 1) := by
    refine ⟨'=' :: r, ?_⟩
    rw [← List.drop_drop, List.drop_left]
    rfl
  obtain ⟨j, hj, hlower, hupper⟩ := exists_mem_occurrences hne hoccurs
  have hnot : j ≠ l.length := by
    rintro rfl
    have hprefix := prefix_of_mem_occurrences hj
    rw [List.drop_left] at hprefix
    have hfirst : some '!' = some '=' := List.prefix_iff_getElem?.mp hprefix 0 (by decide)
    exact absurd hfirst (by decide)
  have happart := apart_of_mem_occurrencesFrom hne hj hhidden (by omega)
  omega

/-- The place of the `==` in a `!===`, among the bytes and among the characters. -/
theorem start_bytes_hidden {l r : Text} {s : Span}
    (hs : s.start ≤ (l ++ ("!===".toList ++ r)).length) :
    (s.bytes (l ++ ("!===".toList ++ r))).start = utf8Length l + 2 ↔ s.start = l.length + 2 := by
  have hlength : l.length + 2 ≤ (l ++ ("!===".toList ++ r)).length := by
    simp
  have htake : utf8Length ((l ++ ("!===".toList ++ r)).take (l.length + 2)) =
      utf8Length l + 2 := by
    rw [List.take_length_add_append, utf8Length_append]
    rfl
  rw [Span.start_bytes, ← htake, utf8Length_take_inj hs hlength]

/-- The matches of one operator: at most one, the first of the spans that it claims. -/
theorem matched_iff {constraint : Text} {o : RangeOperator} {p : Nat} :
    (∃ m ∈ operatorMatches constraint, m.operator = o ∧ m.position constraint = p) ↔
      ∃ s, (unclaimed constraint (claimedBefore constraint o) o).head? = some s ∧
        (s.bytes constraint).start = p := by
  constructor
  · rintro ⟨m, hm, rfl, hp⟩
    exact ⟨m.span, mem_operatorMatches_iff.mp hm, hp⟩
  · rintro ⟨s, hs, hp⟩
    have hspan : OperatorMatch.span ⟨o, s.start⟩ = s := by
      rw [OperatorMatch.span, ← (mem_unclaimed (List.mem_of_head? hs)).length]
    exact ⟨⟨o, s.start⟩, mem_operatorMatches_iff.mpr (by rwa [hspan]), rfl, hp⟩

end Hidden

/-- An operator is matched at its first free occurrence, unless that is the `==` of a `!===`. -/
theorem matchedFirst_iff (constraint : Text) (o : RangeOperator) :
    MatchedFirst constraint o ↔
      ¬ (o = .equal ∧ ∃ l r, constraint = l ++ ("!===".toList ++ r) ∧
        IsLeast {p | FreeAt constraint o p} (utf8Length l + 2)) := by
  have hstart : ∀ {s}, Unclaimed constraint (claimedBefore constraint o) o s →
      s.start ≤ constraint.length := fun hs => (Nat.le_add_right _ _).trans hs.stop_le
  constructor
  · rintro hmatched ⟨rfl, l, r, rfl, hleast⟩
    obtain ⟨s, hs, hp⟩ := matched_iff.mp ((hmatched _).mpr hleast)
    obtain ⟨hfound, hfree⟩ := mem_unclaimed_iff.mp (List.mem_of_head? hs)
    rw [(start_bytes_hidden (hstart hfree)).mp hp] at hfound
    exact not_mem_occurrences_hidden l r hfound
  · intro hvisible
    have hhead : ∀ {s}, FirstFree constraint o s →
        (unclaimed constraint (claimedBefore constraint o) o).head? = some s := by
      intro s hs
      rcases hs.found_or_hidden with hfound | ⟨rfl, l, r, rfl, hbehind⟩
      · exact head?_unclaimed_of_firstFree hs hfound
      · have hbytes := (start_bytes_hidden (hstart hs.free)).mpr hbehind.symm
        exact absurd ⟨rfl, l, r, rfl, isLeast_freeAt_iff.mpr ⟨s, hs, hbytes⟩⟩ hvisible
    intro p
    rw [matched_iff, isLeast_freeAt_iff]
    constructor
    · rintro ⟨t, ht, hp⟩
      obtain ⟨s, hs⟩ := exists_firstFree (mem_unclaimed (List.mem_of_head? ht))
      obtain rfl : t = s := Option.some.inj (ht.symm.trans (hhead hs))
      exact ⟨t, hs, hp⟩
    · rintro ⟨s, hs, hp⟩
      exact ⟨s, hhead hs, hp⟩

/-- In `!===` nothing claims the `==` at the end, but it is not matched. -/
theorem not_matchedFirst_equal : ¬ MatchedFirst "!===".toList .equal := by
  intro hmatched
  have hclaimed : claimedBefore "!===".toList .equal = [⟨0, 2⟩] := by decide
  have hfree : Unclaimed "!===".toList (claimedBefore "!===".toList .equal) .equal ⟨2, 2⟩ := by
    refine ⟨by decide, by decide, ?_⟩
    rw [hclaimed]
    decide
  obtain ⟨s, hs⟩ := exists_firstFree hfree
  obtain ⟨m, hm, hoperator, -⟩ := (hmatched _).mpr (isLeast_freeAt_iff.mpr ⟨s, hs, rfl⟩)
  have hmatches : operatorMatches "!===".toList = [⟨.notEqual, 0⟩] := by decide
  rw [hmatches, List.mem_singleton] at hm
  rw [hm] at hoperator
  cases hoperator

end SwiftManifest
