import SwiftManifest.Proofs.Requirement.Tokens

/-! A constraint can be told from its requirement. The piece of the first operator already spells
the constraint out, except that pieces follow each other without a separator: where a piece ends has
to be told from the lengths. -/

namespace SwiftManifest

namespace RangeOperator

/-- No operator is two operators in a row. -/
theorem text_ne_append (o p q : RangeOperator) : o.text ≠ p.text ++ q.text := by
  have hall : ∀ o ∈ all, ∀ p ∈ all, ∀ q ∈ all, o.text ≠ p.text ++ q.text := by
    decide +kernel
  exact hall o o.mem_all p p.mem_all q q.mem_all

end RangeOperator

/-- The tokens of one operator of a constraint; `ends` tells whether a literal on the right is
missing because the operator ends the constraint. -/
inductive Piece (s : Text) : (ends : Bool) → List Token → Prop
  | first {o : RangeOperator} {r : Text} : s = o.text ++ r →
      Piece s false (marks o.text ++ [.literal r])
  | between {l r : Text} {o : RangeOperator} : s = l ++ (o.text ++ r) → r ≠ [] →
      Piece s false (.literal l :: (marks o.text ++ [.literal r]))
  | last {l : Text} {o : RangeOperator} : s = l ++ o.text →
      Piece s true (.literal l :: marks o.text)

theorem piece_tokens {s : Text} {m : OperatorMatch} (hm : m ∈ operatorMatches s) :
    Piece s (m.start ≠ 0 ∧ m.right s = []) (m.tokens s) := by
  have hsplit := (sound_of_mem hm).split
  unfold OperatorMatch.tokens OperatorMatch.leftTokens OperatorMatch.rightTokens
  by_cases hstart : m.start = 0
  · simp only [hstart, List.take_zero, List.nil_append] at hsplit
    simpa [hstart] using Piece.first hsplit
  · by_cases hright : m.right s = []
    · rw [hright, List.append_nil] at hsplit
      simpa [hstart, hright] using Piece.last hsplit
    · simpa [hstart, hright] using Piece.between hsplit hright

/-- The pieces of a constraint, the first one apart. At most one of them ends it. -/
structure Pieces (s : Text) (ends : Bool) (p : List Token) (ps : List (List Token)) : Prop where
  tokens : requirementTokens s = p ++ ps.flatten
  head : Piece s ends p
  tail : ∀ q ∈ ps, ∃ ends', Piece s ends' q ∧ (ends = true → ends' = false)

theorem exists_pieces {s : Text} (h : operatorMatches s ≠ []) :
    ∃ ends p ps, Pieces s ends p ps := by
  obtain ⟨m, ms, hms⟩ := List.exists_cons_of_ne_nil h
  refine ⟨_, m.tokens s, ms.map (·.tokens s), ?_, piece_tokens (by simp [hms]), ?_⟩
  · rw [requirementTokens_of_ne_nil h, hms, List.flatMap_cons, List.flatMap_def]
  · intro q hq
    obtain ⟨n, hn, rfl⟩ := List.mem_map.mp hq
    refine ⟨_, piece_tokens (by simp [hms, hn]), fun hends => ?_⟩
    have hright : m.right s = [] := (of_decide_eq_true hends).2
    simp [right_ne_nil hms hn hright]

/-- What can follow the first piece: no second one that ends the constraint, if that one does. -/
inductive Rest (s : Text) : (ends : Bool) → List Token → Prop
  | nil {ends : Bool} : Rest s ends []
  | first {ends : Bool} {o : RangeOperator} {r : Text} (rest : List Token) : s = o.text ++ r →
      Rest s ends (marks o.text ++ .literal r :: rest)
  | between {ends : Bool} {l r : Text} {o : RangeOperator} (rest : List Token) :
      s = l ++ (o.text ++ r) → Rest s ends (.literal l :: (marks o.text ++ .literal r :: rest))
  | last (l : Text) (rest : List Token) : Rest s false (.literal l :: rest)

theorem Pieces.rest {s : Text} {ends : Bool} {p : List Token} {ps : List (List Token)}
    (h : Pieces s ends p ps) : Rest s ends ps.flatten := by
  cases ps with
  | nil => exact .nil
  | cons q qs =>
    obtain ⟨ends', hq, hends⟩ := h.tail q (by simp)
    rw [List.flatten_cons]
    cases hq with
    | first heq =>
      rw [List.append_assoc]
      exact .first _ heq
    | between heq _ =>
      rw [List.cons_append, List.append_assoc]
      exact .between _ heq
    | last _ =>
      cases ends with
      | false => exact .last _ _
      | true => exact absurd (hends rfl) (by decide)

theorem marks_append_inj {a b : Text} {x y : List Token} (hx : ∀ c rest, x ≠ .mark c :: rest)
    (hy : ∀ c rest, y ≠ .mark c :: rest) (h : marks a ++ x = marks b ++ y) : a = b ∧ x = y := by
  induction a generalizing b with
  | nil =>
    cases b with
    | nil => exact ⟨rfl, h⟩
    | cons c cs => exact absurd h (hx c _)
  | cons c cs ih =>
    cases b with
    | nil => exact absurd h.symm (hy c _)
    | cons d ds =>
      obtain ⟨heq, hrest⟩ := List.cons.inj h
      obtain ⟨rfl, rfl⟩ := ih hrest
      exact ⟨congrArg (· :: cs) (Token.mark.inj heq), rfl⟩

theorem marks_text_ne_nil (o : RangeOperator) (x : List Token) : marks o.text ++ x ≠ [] := by
  obtain ⟨c, cs, h⟩ := List.exists_cons_of_ne_nil o.text_ne_nil
  simp [h]

theorem marks_text_ne_literal (o : RangeOperator) (l : Text) (x y : List Token) :
    marks o.text ++ x ≠ .literal l :: y := by
  obtain ⟨c, cs, h⟩ := List.exists_cons_of_ne_nil o.text_ne_nil
  simp [h]

theorem literal_ne_mark (l : Text) (ts : List Token) :
    ∀ c rest, Token.literal l :: ts ≠ .mark c :: rest := by
  simp

/-- A constraint that goes on behind an operator is not spelled like one that ends there: the text
behind the operator would be the text in front of the next one, and each constraint longer than the
other. -/
theorem between_ne_last {s t l r : Text} {o : RangeOperator} {x y : List Token} {ends : Bool}
    (hs : s = l ++ (o.text ++ r)) (hr : r ≠ []) (hx : Rest s ends x)
    {o' : RangeOperator} (ht : t = l ++ o'.text) (hy : Rest t true y) :
    marks o.text ++ .literal r :: x ≠ marks o'.text ++ y := by
  intro h
  cases hy with
  | nil =>
    have hend := (marks_append_inj (literal_ne_mark r _) (by simp) h).2
    exact List.cons_ne_nil _ _ hend
  | first _ _ =>
    rw [← List.append_assoc, ← marks_append] at h
    exact o.text_ne_append _ _ (marks_append_inj (literal_ne_mark _ _) (literal_ne_mark _ _) h).1
  | between _ heq =>
    obtain ⟨htext, hbehind⟩ := marks_append_inj (literal_ne_mark _ _) (literal_ne_mark _ _) h
    obtain ⟨hliteral, hx'⟩ := List.cons.inj hbehind
    cases hx with
    | nil => exact marks_text_ne_nil _ _ hx'.symm
    | first _ heq' =>
      obtain ⟨htext', hbound⟩ := marks_append_inj (literal_ne_mark _ _) (literal_ne_mark _ _) hx'
      obtain rfl := Token.literal.inj (List.cons.inj hbound).1
      obtain rfl := Token.literal.inj hliteral
      have hpos := List.length_pos_iff.mpr hr
      have hslen := congrArg List.length hs
      have hslen' := congrArg List.length heq'
      have htlen := congrArg List.length ht
      have htlen' := congrArg List.length heq
      simp only [htext, htext', List.length_append] at hslen hslen' htlen htlen'
      omega
    | between _ _ => exact marks_text_ne_literal _ _ _ _ hx'.symm
    | last _ _ => exact marks_text_ne_literal _ _ _ _ hx'.symm

theorem Rest.first_or_not_mark {s : Text} {x : List Token} (h : Rest s true x) :
    (∃ (o : RangeOperator) (r : Text) (rest : List Token),
      s = o.text ++ r ∧ x = marks o.text ++ .literal r :: rest) ∨
    ∀ c rest, x ≠ .mark c :: rest := by
  cases h with
  | nil => simp
  | first rest heq => exact .inl ⟨_, _, rest, heq, rfl⟩
  | between _ _ => exact .inr (literal_ne_mark _ _)

/-- Constraints that both end behind their first operator. When operators follow that come first,
the lengths tell where the one ends and the other begins. -/
theorem eq_of_last {s t l : Text} {o o' : RangeOperator} {x y : List Token}
    (hs : s = l ++ o.text) (hx : Rest s true x) (ht : t = l ++ o'.text) (hy : Rest t true y)
    (h : marks o.text ++ x = marks o'.text ++ y) : s = t := by
  rcases hx.first_or_not_mark with ⟨p, r, rest, hp, rfl⟩ | hx
  · rcases hy.first_or_not_mark with ⟨p', r', rest', hp', rfl⟩ | hy
    · rw [← List.append_assoc, ← List.append_assoc, ← marks_append, ← marks_append] at h
      obtain ⟨htext, hbound⟩ := marks_append_inj (literal_ne_mark _ _) (literal_ne_mark _ _) h
      obtain rfl := Token.literal.inj (List.cons.inj hbound).1
      have hslen := congrArg List.length (hs.symm.trans hp)
      have htlen := congrArg List.length (ht.symm.trans hp')
      have hlen := congrArg List.length htext
      simp only [List.length_append] at hslen htlen hlen
      have hoperator := (List.append_inj htext (by omega)).1
      rw [hs, ht, hoperator]
    · rw [← List.append_assoc, ← marks_append] at h
      exact absurd (marks_append_inj (literal_ne_mark _ _) hy h).1.symm (o'.text_ne_append _ _)
  · rcases hy.first_or_not_mark with ⟨p', r', rest', hp', rfl⟩ | hy
    · rw [← List.append_assoc, ← marks_append] at h
      exact absurd (marks_append_inj hx (literal_ne_mark _ _) h).1 (o.text_ne_append _ _)
    · rw [hs, ht, (marks_append_inj hx hy h).1]

theorem eq_of_pieces {s t : Text} {ends ends' : Bool} {p q x y : List Token}
    (hp : Piece s ends p) (hx : Rest s ends x) (hq : Piece t ends' q) (hy : Rest t ends' y)
    (h : p ++ x = q ++ y) : s = t := by
  cases hp with
  | first heq =>
    rw [List.append_assoc] at h
    cases hq with
    | first heq' =>
      rw [List.append_assoc] at h
      obtain ⟨htext, hbound⟩ := marks_append_inj (literal_ne_mark _ _) (literal_ne_mark _ _) h
      rw [heq, heq', htext, Token.literal.inj (List.cons.inj hbound).1]
    | between _ _ => exact absurd h (marks_text_ne_literal _ _ _ _)
    | last _ => exact absurd h (marks_text_ne_literal _ _ _ _)
  | between heq hr =>
    cases hq with
    | first _ =>
      rw [List.append_assoc] at h
      exact absurd h.symm (marks_text_ne_literal _ _ _ _)
    | between heq' _ =>
      obtain ⟨hl, hoperator⟩ := List.cons.inj h
      obtain ⟨htext, hbound⟩ := marks_append_inj (literal_ne_mark _ x) (literal_ne_mark _ y)
        (by simpa using hoperator)
      rw [heq, heq', Token.literal.inj hl, htext, Token.literal.inj (List.cons.inj hbound).1]
    | last heq' =>
      obtain ⟨hl, hoperator⟩ := List.cons.inj h
      obtain rfl := Token.literal.inj hl
      exact absurd (by simpa using hoperator) (between_ne_last heq hr hx heq' hy)
  | last heq =>
    cases hq with
    | first _ =>
      rw [List.append_assoc] at h
      exact absurd h.symm (marks_text_ne_literal _ _ _ _)
    | between heq' hr =>
      obtain ⟨hl, hoperator⟩ := List.cons.inj h
      obtain rfl := Token.literal.inj hl
      exact absurd (by simpa using hoperator.symm) (between_ne_last heq' hr hy heq hx)
    | last heq' =>
      obtain ⟨hl, hoperator⟩ := List.cons.inj h
      obtain rfl := Token.literal.inj hl
      exact eq_of_last heq hx heq' hy hoperator

/-- A requirement determines its constraint. -/
theorem requirementTokens_injective {s t : Text} (h : requirementTokens s = requirementTokens t) :
    s = t := by
  by_cases hs : operatorMatches s = []
  · by_cases ht : operatorMatches t = []
    · rw [requirementTokens_of_nil hs, requirementTokens_of_nil ht] at h
      simpa using h
    · exact absurd (h.symm.trans (requirementTokens_of_nil hs)) (requirementTokens_ne_from ht _)
  · by_cases ht : operatorMatches t = []
    · exact absurd (h.trans (requirementTokens_of_nil ht)) (requirementTokens_ne_from hs _)
    · obtain ⟨ends, p, ps, hpieces⟩ := exists_pieces hs
      obtain ⟨ends', q, qs, hpieces'⟩ := exists_pieces ht
      rw [hpieces.tokens, hpieces'.tokens] at h
      exact eq_of_pieces hpieces.head hpieces.rest hpieces'.head hpieces'.rest h

/-- So does the text of a requirement, in which nothing separates the pieces. -/
theorem requirement_eq_iff (s t : Text) : requirement s = requirement t ↔ s = t := by
  constructor
  · intro h
    rw [← spell_requirementTokens, ← spell_requirementTokens] at h
    have htokens := spell_injective (plain_requirementTokens s) (plain_requirementTokens t) h
    exact requirementTokens_injective htokens
  · intro h
    rw [h]

end SwiftManifest
