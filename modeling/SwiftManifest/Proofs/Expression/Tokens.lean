import SwiftManifest.Proofs.Expression.WellFormed
import SwiftManifest.Proofs.Requirement.Tokens
import SwiftManifest.Proofs.Text.Nesting

/-! The tokens of an expression that is written at some depth. Indenting its text, which is what a
list or a call around it does, is writing it one level deeper. -/

namespace SwiftManifest

namespace Token

/-- What the text of an expression begins with. -/
def Starts : Token → Prop
  | .literal _ => True
  | .mark c => visible c ∧ isClosing c = false
  | .feed _ => False

instance : (t : Token) → Decidable t.Starts
  | .literal _ => .isTrue trivial
  | .mark _ => inferInstanceAs (Decidable (_ ∧ _))
  | .feed _ => .isFalse id

/-- What the text of an expression ends with. -/
def Ends : Token → Prop
  | .literal _ => True
  | .mark c => isOpening c = false
  | .feed _ => False

instance : (t : Token) → Decidable t.Ends
  | .literal _ => .isTrue trivial
  | .mark _ => inferInstanceAs (Decidable (_ = _))
  | .feed _ => .isFalse id

theorem isFeed_of_ends {t : Token} (ht : t.Ends) : t.isFeed = false := by
  cases t with
  | feed depth => exact ht.elim
  | _ => rfl

end Token

/-- Tokens that can stand on a line of their own: they begin and end as expressions do. -/
structure Framed (ts : List Token) : Prop where
  first : ∃ t us, ts = t :: us ∧ t.Starts
  last : ∃ us t, ts = us ++ [t] ∧ t.Ends

namespace Framed

theorem of {t u : Token} {ts : List Token} (ht : t.Starts) (hu : u.Ends) :
    Framed (t :: ts ++ [u]) :=
  ⟨⟨t, ts ++ [u], rfl, ht⟩, t :: ts, u, rfl, hu⟩

theorem pair {t u : Token} (ht : t.Starts) (hu : u.Ends) : Framed [t, u] :=
  ⟨⟨t, [u], rfl, ht⟩, [t], u, rfl, hu⟩

theorem of_forall {ts : List Token} (hne : ts ≠ []) (h : ∀ t ∈ ts, t.Starts ∧ t.Ends) :
    Framed ts where
  first := by
    obtain ⟨t, us, rfl⟩ := List.exists_cons_of_ne_nil hne
    exact ⟨t, us, rfl, (h t (by simp)).1⟩
  last := ⟨_, _, (List.dropLast_concat_getLast hne).symm, (h _ (List.getLast_mem hne)).2⟩

theorem append {ts us : List Token} {t : Token} (h : Framed ts) (ht : t.Ends) :
    Framed (ts ++ (us ++ [t])) where
  first := by
    rcases h.first with ⟨v, vs, rfl, hv⟩
    exact ⟨v, vs ++ (us ++ [t]), rfl, hv⟩
  last := ⟨ts ++ us, t, by simp, ht⟩

theorem intercalate {separator : List Token} {parts : List (List Token)} (hne : parts ≠ [])
    (h : ∀ p ∈ parts, Framed p) : Framed (separator.intercalate parts) := by
  induction parts with
  | nil => exact absurd rfl hne
  | cons p ps ih =>
    rcases List.forall_mem_cons.mp h with ⟨hp, hps⟩
    cases ps with
    | nil => simpa using hp
    | cons q qs =>
      obtain ⟨us, t, hlast, ht⟩ := (ih (List.cons_ne_nil q qs) hps).last
      rw [List.intercalate_cons_cons, hlast, List.append_assoc, ← List.append_assoc separator]
      exact hp.append ht

end Framed

namespace Expression

/-- Entries on lines of their own, at depth `k + 1`, and the line feed behind the last one. -/
def blockTokens (k : Nat) (parts : List (List Token)) : List Token :=
  .feed (k + 1) :: [.mark ',', .feed (k + 1)].intercalate parts ++ [.feed k]

def inlineTokens (parts : List (List Token)) : List Token :=
  [.mark ',', .mark ' '].intercalate parts

mutual
def tokens (k : Nat) : Expression → List Token
  | .literal value => [.literal value.toList]
  | .symbol name => marks ('.' :: name.toList)
  | .strings values =>
    .mark '[' :: inlineTokens (values.map fun v => [.literal v.toList]) ++ [.mark ']']
  | .requirement constraint => requirementTokens constraint.toList
  | .absent => marks "nil".toList
  | .list entries =>
    .mark '[' :: (if entries.isEmpty then [] else blockTokens k (allTokens (k + 1) entries)) ++
      [.mark ']']
  | .call keyword arguments =>
    marks keyword.toList ++ .mark '(' ::
      (if arguments.isEmpty then [.feed k, .feed k]
        else blockTokens k (allTokens (k + 1) arguments)) ++ [.mark ')']
  | .inlineCall keyword arguments =>
    marks keyword.toList ++ .mark '(' :: inlineTokens (allTokens k arguments) ++ [.mark ')']
  | .labeled label value => marks label.toList ++ .mark ':' :: .mark ' ' :: tokens k value
  | .reported _ value => tokens k value

def allTokens (k : Nat) : List Expression → List (List Token)
  | [] => []
  | e :: es => tokens k e :: allTokens k es
end

theorem allTokens_eq_map (k : Nat) (es : List Expression) : allTokens k es = es.map (tokens k) := by
  induction es with
  | nil => rfl
  | cons e es ih => simp [allTokens, ih]

theorem forall_mem_allTokens {bare : Prop} {es : List Expression} {k : Nat}
    {P : List Token → Prop} (hes : AllWellFormed bare es)
    (h : ∀ e ∈ es, e.WellFormed bare → P (e.tokens k)) : ∀ p ∈ allTokens k es, P p := by
  intro p hp
  rw [allTokens_eq_map] at hp
  obtain ⟨e, he, rfl⟩ := List.mem_map.mp hp
  exact h e he (allWellFormed_iff.mp hes e he)

theorem map_deeper_inlineTokens (parts : List (List Token)) :
    (inlineTokens parts).map Token.deeper = inlineTokens (parts.map (·.map Token.deeper)) := by
  simp [inlineTokens, map_intercalate, Token.deeper]

theorem map_deeper_blockTokens (k : Nat) (parts : List (List Token)) :
    (blockTokens k parts).map Token.deeper =
      blockTokens (k + 1) (parts.map (·.map Token.deeper)) := by
  simp [blockTokens, map_intercalate, Token.deeper]

theorem map_deeper_requirementTokens (constraint : Text) :
    (requirementTokens constraint).map Token.deeper = requirementTokens constraint := by
  refine (List.map_congr_left fun t ht => ?_).trans (List.map_id _)
  rcases mem_requirementTokens ht with ⟨value, rfl⟩ | ⟨c, -, rfl⟩ <;> rfl

theorem map_deeper_parts {es : List Expression} {k : Nat}
    (h : ∀ e ∈ es, ∀ k, (e.tokens k).map Token.deeper = e.tokens (k + 1)) :
    (es.map (tokens k)).map (·.map Token.deeper) = es.map (tokens (k + 1)) := by
  rw [List.map_map]
  apply List.map_congr_left
  intro e he
  exact h e he k

/-- One level deeper is one tab more behind every line feed. -/
theorem map_deeper_tokens (e : Expression) (k : Nat) :
    (e.tokens k).map Token.deeper = e.tokens (k + 1) := by
  induction e generalizing k with
  | literal value => rfl
  | symbol name => simp only [tokens, map_deeper_marks]
  | strings values => simp [tokens, map_deeper_inlineTokens, Token.deeper, Function.comp_def]
  | requirement constraint => simp only [tokens, map_deeper_requirementTokens]
  | absent => rfl
  | list entries ih =>
    have hparts := map_deeper_parts (k := k + 1) ih
    by_cases hempty : entries = []
    · simp [tokens, hempty, Token.deeper]
    · simp [tokens, hempty, allTokens_eq_map, map_deeper_blockTokens, hparts, Token.deeper]
  | call keyword arguments ih =>
    have hparts := map_deeper_parts (k := k + 1) ih
    by_cases hempty : arguments = []
    · simp [tokens, hempty, Token.deeper]
    · simp [tokens, hempty, allTokens_eq_map, map_deeper_blockTokens, hparts, Token.deeper]
  | inlineCall keyword arguments ih =>
    have hparts := map_deeper_parts (k := k) ih
    simp [tokens, allTokens_eq_map, map_deeper_inlineTokens, hparts, Token.deeper]
  | labeled label value ih => simp [tokens, ih, Token.deeper]
  | reported event value ih => simp [tokens, ih]

/-! The characters, the first token and the last token of an expression. -/

theorem plain_of_nameChar {c : Char} (h : nameChar c) : (Token.mark c).Plain :=
  h.not_mem (by decide)

theorem plain_names {t : Text} (h : ∀ c ∈ t, nameChar c) : ∀ m ∈ marks t, m.Plain :=
  plain_marks fun c hc => plain_of_nameChar (h c hc)

theorem plain_inlineTokens {parts : List (List Token)} (h : ∀ p ∈ parts, ∀ t ∈ p, t.Plain) :
    ∀ t ∈ inlineTokens parts, t.Plain :=
  forall_mem_intercalate (by decide) h

theorem plain_blockTokens {k : Nat} {parts : List (List Token)}
    (h : ∀ p ∈ parts, ∀ t ∈ p, t.Plain) : ∀ t ∈ blockTokens k parts, t.Plain := by
  have hseparator : ∀ t ∈ [Token.mark ',', .feed (k + 1)], t.Plain := by
    simp [Token.Plain]
  rw [blockTokens, List.cons_append, List.forall_mem_cons, List.forall_mem_append,
    List.forall_mem_singleton]
  exact ⟨trivial, forall_mem_intercalate hseparator h, trivial⟩

theorem plain_parts {bare : Prop} {es : List Expression} {k : Nat} (hes : AllWellFormed bare es)
    (h : ∀ e ∈ es, e.WellFormed bare → ∀ k, ∀ t ∈ e.tokens k, t.Plain) :
    ∀ p ∈ allTokens k es, ∀ t ∈ p, t.Plain := by
  apply forall_mem_allTokens (P := fun p => ∀ t ∈ p, t.Plain) hes
  intro e he hwell
  exact h e he hwell k

theorem plain_tokens {bare : Prop} {e : Expression} (he : e.WellFormed bare) (k : Nat) :
    ∀ t ∈ e.tokens k, t.Plain := by
  induction e generalizing k with
  | literal value => simp [tokens, Token.Plain]
  | symbol name => exact plain_names (nameChar_of_mem_symbol he)
  | strings values =>
    simp only [tokens, List.cons_append, List.forall_mem_cons, List.forall_mem_append]
    refine ⟨by decide, plain_inlineTokens ?_, by decide⟩
    simp [Token.Plain]
  | requirement constraint => exact plain_requirementTokens _
  | absent => exact plain_names (by decide)
  | list entries ih =>
    simp only [tokens, List.cons_append, List.forall_mem_cons, List.forall_mem_append]
    refine ⟨by decide, ?_, by decide⟩
    split
    · simp
    · exact plain_blockTokens (plain_parts he ih)
  | call keyword arguments ih =>
    rcases he with ⟨hkeyword, -, harguments⟩
    simp only [tokens, List.append_assoc, List.cons_append, List.forall_mem_cons,
      List.forall_mem_append]
    refine ⟨plain_names hkeyword.chars, by decide, ?_, by decide⟩
    split
    · simp [Token.Plain]
    · exact plain_blockTokens (plain_parts harguments ih)
  | inlineCall keyword arguments ih =>
    rcases he with ⟨hkeyword, harguments⟩
    simp only [tokens, List.append_assoc, List.cons_append, List.forall_mem_cons,
      List.forall_mem_append]
    exact ⟨plain_names hkeyword.chars, by decide, plain_inlineTokens (plain_parts harguments ih),
      by decide⟩
  | labeled label value ih =>
    rcases he with ⟨hlabel, hvalue⟩
    simp only [tokens, List.forall_mem_cons, List.forall_mem_append]
    exact ⟨plain_names hlabel.chars, by decide, by decide, ih hvalue k⟩
  | reported event value ih => exact ih he k

theorem visible_of_nameChar {c : Char} (h : nameChar c) : visible c := by
  rcases h with (h | rfl) | rfl
  · change (decide (c.val ≥ 65 ∧ c.val ≤ 90) || (decide (c.val ≥ 97) && decide (c.val ≤ 122)) ||
      (decide (c.val ≥ 48) && decide (c.val ≤ 57))) = true at h
    simp [visible, Char.le_def, UInt32.le_iff_toNat_le] at h ⊢
    omega
  · rfl
  · rfl

theorem starts_of_nameChar {c : Char} (h : nameChar c) : (Token.mark c).Starts := by
  have hclosing : c ∉ [')', ']'] := h.not_mem (by decide)
  exact ⟨visible_of_nameChar h, by simpa [isClosing] using hclosing⟩

theorem ends_of_nameChar {c : Char} (h : nameChar c) : (Token.mark c).Ends := by
  have hopening : c ∉ ['(', '['] := h.not_mem (by decide)
  simpa [Token.Ends, isOpening] using hopening

theorem framed_requirementTokens (constraint : Text) : Framed (requirementTokens constraint) := by
  by_cases h : operatorMatches constraint = []
  · rw [requirementTokens_of_nil h]
    exact .of (t := .mark 'f') (by decide) trivial
  · have hchars : ∀ c ∈ operatorChars, (Token.mark c).Starts ∧ (Token.mark c).Ends := by decide
    refine .of_forall (requirementTokens_ne_nil constraint) ?_
    intro t ht
    rcases mem_requirementTokens_of_ne_nil h ht with ⟨value, rfl⟩ | ⟨c, hc, rfl⟩
    · exact ⟨trivial, trivial⟩
    · exact hchars c hc

theorem framed_marks {t : Text} (hne : t ≠ []) (h : ∀ c ∈ t, nameChar c) : Framed (marks t) := by
  refine .of_forall (by simpa [marks] using hne) ?_
  intro m hm
  obtain ⟨c, hc, rfl⟩ := List.mem_map.mp hm
  exact ⟨starts_of_nameChar (h c hc), ends_of_nameChar (h c hc)⟩

theorem framed_tokens {bare : Prop} {e : Expression} (he : e.WellFormed bare) (k : Nat) :
    Framed (e.tokens k) := by
  induction e generalizing k with
  | literal value => exact ⟨⟨_, [], rfl, trivial⟩, [], _, rfl, trivial⟩
  | symbol name => exact framed_marks (List.cons_ne_nil _ _) (nameChar_of_mem_symbol he)
  | strings values => exact .of (by decide) (by decide)
  | requirement constraint => exact framed_requirementTokens _
  | absent => exact framed_marks (by decide) (by decide)
  | list entries => exact .of (by decide) (by decide)
  | call keyword arguments =>
    rw [tokens, List.append_assoc]
    exact (framed_marks he.1.ne_nil he.1.chars).append (by decide)
  | inlineCall keyword arguments =>
    rw [tokens, List.append_assoc]
    exact (framed_marks he.1.ne_nil he.1.chars).append (by decide)
  | labeled label value ih =>
    obtain ⟨us, t, h, ht⟩ := (ih he.2 k).last
    rw [tokens, h, ← List.cons_append, ← List.cons_append]
    exact (framed_marks he.1.ne_nil he.1.chars).append ht
  | reported event value ih => exact ih he k

theorem framed_parts {bare : Prop} {es : List Expression} (hes : AllWellFormed bare es) (k : Nat) :
    ∀ p ∈ allTokens k es, Framed p := by
  apply forall_mem_allTokens (P := Framed) hes
  intro e _ hwell
  exact framed_tokens hwell k

theorem block_spell_of_framed {ts : List Token} (hplain : ∀ t ∈ ts, t.Plain) (h : Framed ts) :
    Block (spell ts) := by
  rcases h.last with ⟨us, t, rfl, ht⟩
  exact block_spell us (hplain t (by simp)) (Token.isFeed_of_ends ht)

/-- The lines that a list or a call puts between its brackets. -/
theorem indent_joined {bare : Prop} {es : List Expression} (hes : AllWellFormed bare es)
    (hne : es ≠ []) :
    indent (joined ",\n" ((allTokens 0 es).map spell)) =
      '\t' :: spell ([.mark ',', .feed 1].intercalate (allTokens 1 es)) := by
  have hspell : joined ",\n" ((allTokens 0 es).map spell) =
      spell ([.mark ',', .feed 0].intercalate (allTokens 0 es)) := by
    rw [spell_intercalate]
    rfl
  have hparts : (allTokens 0 es).map (·.map Token.deeper) = allTokens 1 es := by
    rw [allTokens_eq_map, allTokens_eq_map]
    apply map_deeper_parts
    intro e _
    exact map_deeper_tokens e
  have hplain : ∀ t ∈ [Token.mark ',', .feed 0].intercalate (allTokens 0 es), t.Plain :=
    forall_mem_intercalate (by decide) (plain_parts hes fun e _ he => plain_tokens he)
  have hframed : Framed ([.mark ',', .feed 0].intercalate (allTokens 0 es)) :=
    .intercalate (by simpa [allTokens_eq_map] using hne) (framed_parts hes 0)
  rw [hspell, indent_spell hplain (block_spell_of_framed hplain hframed), map_intercalate, hparts]
  rfl

theorem printAll_eq_spell {bare : Prop} {es : List Expression} (hes : AllWellFormed bare es)
    (h : ∀ e ∈ es, e.WellFormed bare → e.print = spell (e.tokens 0)) :
    printAll es = (allTokens 0 es).map spell := by
  rw [printAll_eq_map, allTokens_eq_map, List.map_map]
  apply List.map_congr_left
  intro e he
  exact h e he (allWellFormed_iff.mp hes e he)

theorem spell_inlineTokens (parts : List (List Token)) :
    spell (inlineTokens parts) = joined ", " (parts.map spell) := by
  rw [inlineTokens, spell_intercalate]
  rfl

theorem print_eq_spell {bare : Prop} {e : Expression} (he : e.WellFormed bare) :
    e.print = spell (e.tokens 0) := by
  induction e with
  | literal value => simp [print, tokens, Token.text]
  | symbol name => simp [print, tokens, symbolText, Token.text]
  | strings values =>
    simp [print, tokens, quotedList, spell_inlineTokens, Token.text, Function.comp_def]
  | requirement constraint => exact (spell_requirementTokens _).symm
  | absent => simp [print, tokens, Token.text]
  | list entries ih =>
    rw [print, printAll_eq_spell he ih]
    by_cases hempty : entries = []
    · simp [hempty, bracketedList, tokens, allTokens, Token.text]
    · have hparts : allTokens 0 entries ≠ [] := by simpa [allTokens_eq_map] using hempty
      simp [bracketedList, tokens, blockTokens, hempty, hparts, indent_joined he hempty, Token.text]
  | call keyword arguments ih =>
    rw [print, printAll_eq_spell he.2.2 ih]
    by_cases hempty : arguments = []
    · simp [hempty, callText, joined, indent, lines, tokens, allTokens, Token.text]
    · simp [callText, tokens, blockTokens, hempty, indent_joined he.2.2 hempty, Token.text]
  | inlineCall keyword arguments ih =>
    rw [print, printAll_eq_spell he.2 ih]
    simp [inlineCallText, tokens, spell_inlineTokens, Token.text]
  | labeled label value ih => simp [print, tokens, labeledText, Token.text, ih he.2]
  | reported event value ih => exact ih he

end Expression

end SwiftManifest
