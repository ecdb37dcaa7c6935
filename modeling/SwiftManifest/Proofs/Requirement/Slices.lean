import SwiftManifest.Requirement.Compile
import SwiftManifest.Proofs.Requirement.Occurrences

/-! The matches of a constraint by the bytes of its UTF-8 form. Every match begins and ends at a
border between two characters, so the text around it can be cut out by bytes and the cuts cannot
fail; what they give is what the requirement is made of. -/

namespace SwiftManifest

/-- Byte `p` of a text lies between two characters or at an end of the text. -/
def Border (s : String) (p : Nat) : Prop := String.Pos.Raw.IsValid s ⟨p⟩

instance (s : String) (p : Nat) : Decidable (Border s p) :=
  inferInstanceAs (Decidable (String.Pos.Raw.IsValid s ⟨p⟩))

/-- The text between two bytes; there is none unless both are borders, in this order. -/
def slice? (s : String) (start stop : Nat) : Option String :=
  if h : start ≤ stop ∧ Border s start ∧ Border s stop then
    some (s.extract ⟨⟨start⟩, h.2.1⟩ ⟨⟨stop⟩, h.2.2⟩)
  else none

section Slice

theorem border_append (l r : String) : Border (l ++ r) l.utf8ByteSize :=
  String.Pos.Raw.isValid_iff_exists_append.mpr ⟨l, r, rfl, rfl⟩

theorem border_middle (l m r : String) :
    Border (l ++ (m ++ r)) (l.utf8ByteSize + m.utf8ByteSize) := by
  have hborder := border_append (l ++ m) r
  rwa [String.append_assoc, String.utf8ByteSize_append] at hborder

theorem slice?_middle (l m r : String) :
    slice? (l ++ (m ++ r)) l.utf8ByteSize (l.utf8ByteSize + m.utf8ByteSize) = some m := by
  rw [slice?, dif_pos ⟨Nat.le_add_right _ _, border_append _ _, border_middle _ _ _⟩]
  refine congrArg some (String.toByteArray_inj.mp ?_)
  rw [String.toByteArray_extract, String.toByteArray_append, String.toByteArray_append]
  calc (l.toByteArray ++ (m.toByteArray ++ r.toByteArray)).extract (l.toByteArray.size + 0)
        (l.toByteArray.size + m.toByteArray.size)
      = (m.toByteArray ++ r.toByteArray).extract 0 m.toByteArray.size :=
        ByteArray.extract_append_size_add
    _ = m.toByteArray := ByteArray.extract_append_eq_left rfl

theorem slice?_left (l r : String) : slice? (l ++ r) 0 l.utf8ByteSize = some l := by
  simpa using slice?_middle "" l r

theorem slice?_right (l r : String) :
    slice? (l ++ r) l.utf8ByteSize (l ++ r).utf8ByteSize = some r := by
  simpa using slice?_middle l r ""

theorem utf8Length_eq (t : Text) : utf8Length t = (String.ofList t).utf8ByteSize := by
  induction t with
  | nil => rfl
  | cons c cs ih =>
    rw [utf8Length, ih, String.ofList_cons, String.utf8ByteSize_append,
      String.utf8ByteSize_singleton]

theorem utf8Length_toList (s : String) : utf8Length s.toList = s.utf8ByteSize := by
  rw [utf8Length_eq, String.ofList_toList]

end Slice

namespace RangeOperator

/-- The place of an operator in the order in which the operators are declared. -/
def rank (o : RangeOperator) : Nat := all.idxOf o

theorem pairwise_rank : all.Pairwise fun o p => o.rank < p.rank := by
  decide

end RangeOperator

namespace OperatorMatch

/-- The bytes of a match: its position, and as many bytes as the operator has. -/
def bytes (constraint : String) (m : OperatorMatch) : Span :=
  ⟨m.position constraint.toList, m.operator.symbol.utf8ByteSize⟩

/-- The piece of a match by the bytes of the constraint. It exists if all of its cuts do. -/
def piece? (constraint : String) (m : OperatorMatch) : Option Text := do
  let s := m.bytes constraint
  if s.start = 0 then
    let right ← slice? constraint s.length constraint.utf8ByteSize
    return m.operator.text ++ quoted right.toList
  else
    let left ← slice? constraint 0 s.start
    let right ← slice? constraint s.stop constraint.utf8ByteSize
    return quoted left.toList ++ m.operator.text ++
      if right = "" then [] else quoted right.toList

/-- A match divides the constraint; `l` and `r` are the texts around the operator. -/
structure Divides (constraint : String) (m : OperatorMatch) (l r : String) : Prop where
  whole : constraint = l ++ (m.operator.symbol ++ r)
  start : (m.bytes constraint).start = l.utf8ByteSize
  left : l.toList = constraint.toList.take m.start
  right : r.toList = m.right constraint.toList

theorem Sound.exists_divides {constraint : String} {m : OperatorMatch}
    (h : m.Sound constraint.toList) : ∃ l r, m.Divides constraint l r := by
  refine ⟨String.ofList (constraint.toList.take m.start),
    String.ofList (m.right constraint.toList), ?_, utf8Length_eq _, by simp, by simp⟩
  apply String.toList_inj.mp
  simpa [RangeOperator.text] using h.split

namespace Divides

variable {constraint l r : String} {m : OperatorMatch}

theorem stop (h : m.Divides constraint l r) :
    (m.bytes constraint).stop = l.utf8ByteSize + m.operator.symbol.utf8ByteSize := by
  rw [Span.stop, h.start]
  rfl

theorem borders (h : m.Divides constraint l r) :
    Border constraint (m.bytes constraint).start ∧ Border constraint (m.bytes constraint).stop := by
  rw [h.stop, h.start, h.whole]
  exact ⟨border_append _ _, border_middle _ _ _⟩

theorem slice?_before (h : m.Divides constraint l r) :
    slice? constraint 0 (m.bytes constraint).start = some l := by
  rw [h.start, h.whole]
  exact slice?_left _ _

theorem slice?_operator (h : m.Divides constraint l r) :
    slice? constraint (m.bytes constraint).start (m.bytes constraint).stop =
      some m.operator.symbol := by
  rw [h.stop, h.start, h.whole]
  exact slice?_middle _ _ _

theorem slice?_behind (h : m.Divides constraint l r) :
    slice? constraint (m.bytes constraint).stop constraint.utf8ByteSize = some r := by
  have hslice := slice?_right (l ++ m.operator.symbol) r
  rw [String.append_assoc, ← h.whole, String.utf8ByteSize_append, ← h.stop] at hslice
  exact hslice

/-- A match stands at the first byte if it stands at the first character. -/
theorem start_eq_zero_iff (h : m.Divides constraint l r) :
    (m.bytes constraint).start = 0 ↔ m.start = 0 := by
  have hne : constraint.toList ≠ [] := by
    intro hnil
    have hwhole := congrArg String.toList h.whole
    rw [hnil, String.toList_append, String.toList_append] at hwhole
    exact m.operator.text_ne_nil (List.append_eq_nil_iff.mp (List.append_eq_nil_iff.mp
      hwhole.symm).2).1
  rw [h.start, String.utf8ByteSize_eq_zero_iff, ← String.toList_eq_nil_iff, h.left,
    List.take_eq_nil_iff]
  simp [hne]

/-- All cuts of a piece exist, and they give the piece. -/
theorem piece?_eq (h : m.Divides constraint l r) :
    m.piece? constraint = some (operatorPiece constraint.toList m) := by
  have hright : constraint.toList.drop (m.start + m.operator.text.length) = r.toList :=
    h.right.symm
  by_cases hstart : m.start = 0
  · have hzero := h.start_eq_zero_iff.mpr hstart
    have hbehind := h.slice?_behind
    rw [Span.stop, hzero, Nat.zero_add] at hbehind
    rw [operatorPiece, if_pos hstart, hright]
    simp [piece?, hzero, hbehind]
  · have hne := mt h.start_eq_zero_iff.mp hstart
    rw [operatorPiece, if_neg hstart, hright, ← h.left]
    simp [piece?, hne, h.slice?_before, h.slice?_behind]

end Divides

theorem Sound.span_bytes {constraint : String} {m : OperatorMatch}
    (h : m.Sound constraint.toList) : m.span.bytes constraint.toList = m.bytes constraint := by
  have htext : (constraint.toList.drop m.start).take m.operator.text.length = m.operator.text :=
    (List.prefix_iff_eq_take.mp h).symm
  simp only [Span.bytes, span, bytes, position, htext]
  rw [RangeOperator.text, utf8Length_toList]

end OperatorMatch

/-- Every operator is matched at most once, in the declared order. -/
theorem sublist_matchesFrom (constraint : Text) (claimed : List Span) (os : List RangeOperator) :
    ((matchesFrom constraint claimed os).map (·.operator)).Sublist os := by
  induction os generalizing claimed with
  | nil => simp [matchesFrom]
  | cons o os ih =>
    rw [matchesFrom_cons, List.map_append]
    cases (unclaimed constraint claimed o).head? with
    | none => exact (ih _).cons o
    | some s => exact (ih _).cons_cons o

/-- What holds of the list of matches, by the bytes of the constraint. -/
structure SoundMatches (constraint : String) (ms : List OperatorMatch) : Prop where
  increasing : ms.Pairwise fun m n => m.operator.rank < n.operator.rank
  atMostEight : ms.length ≤ 8
  borders : ∀ m ∈ ms,
    Border constraint (m.bytes constraint).start ∧ Border constraint (m.bytes constraint).stop
  operator : ∀ m ∈ ms,
    slice? constraint (m.bytes constraint).start (m.bytes constraint).stop =
      some m.operator.symbol
  disjoint : ms.Pairwise fun m n =>
    (m.bytes constraint).stop ≤ (n.bytes constraint).start ∨
      (n.bytes constraint).stop ≤ (m.bytes constraint).start
  pieces : ∀ m ∈ ms, m.piece? constraint = some (operatorPiece constraint.toList m)
  whole : ∀ m ∈ ms, ∃ l r,
    slice? constraint 0 (m.bytes constraint).start = some l ∧
      slice? constraint (m.bytes constraint).stop constraint.utf8ByteSize = some r ∧
      l ++ (m.operator.symbol ++ r) = constraint

theorem pairwise_disjoint (constraint : String) :
    (operatorMatches constraint.toList).Pairwise fun m n =>
      (m.bytes constraint).stop ≤ (n.bytes constraint).start ∨
        (n.bytes constraint).stop ≤ (m.bytes constraint).start := by
  refine (pairwise_matchesFrom constraint.toList RangeOperator.all []).imp_of_mem ?_
  intro m n hm hn hapart
  have hmsound := sound_of_mem hm
  have hnsound := sound_of_mem hn
  rw [← Span.overlaps_bytes_iff hnsound.stop_le hmsound.stop_le, hmsound.span_bytes,
    hnsound.span_bytes] at hapart
  simp only [Span.Overlaps] at hapart
  omega

/-- The matches of a constraint are sound, and no cut that a piece needs can fail. -/
theorem operatorMatches_sound (constraint : String) :
    SoundMatches constraint (operatorMatches constraint.toList) := by
  have hsublist := sublist_matchesFrom constraint.toList [] RangeOperator.all
  have hdivides : ∀ m ∈ operatorMatches constraint.toList, ∃ l r, m.Divides constraint l r :=
    fun m hm => (sound_of_mem hm).exists_divides
  constructor
  · have hrank : ((operatorMatches constraint.toList).map (·.operator)).Pairwise
        fun o p => o.rank < p.rank := RangeOperator.pairwise_rank.sublist hsublist
    rwa [List.pairwise_map] at hrank
  · have hlength := hsublist.length_le
    rwa [List.length_map] at hlength
  · intro m hm
    obtain ⟨l, r, h⟩ := hdivides m hm
    exact h.borders
  · intro m hm
    obtain ⟨l, r, h⟩ := hdivides m hm
    exact h.slice?_operator
  · exact pairwise_disjoint constraint
  · intro m hm
    obtain ⟨l, r, h⟩ := hdivides m hm
    exact h.piece?_eq
  · intro m hm
    obtain ⟨l, r, h⟩ := hdivides m hm
    exact ⟨l, r, h.slice?_before, h.slice?_behind, h.whole.symm⟩

/-- Matches may touch: the `<` ends where the `==` begins, behind a character of two bytes. -/
example : (operatorMatches "é<==2".toList).map (·.bytes "é<==2") = [⟨3, 2⟩, ⟨2, 1⟩] := by
  decide

end SwiftManifest
