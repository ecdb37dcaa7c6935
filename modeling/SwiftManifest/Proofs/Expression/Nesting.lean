import SwiftManifest.Proofs.Expression.Tokens
import SwiftManifest.Proofs.Text.Brackets

/-! The lines of an expression are indented by nesting. Written at some depth, an expression begins
and ends at that depth, whatever brackets it opens and closes in between; calls on several lines
that have no arguments leave its blank lines. -/

namespace SwiftManifest

namespace LineState

variable {blanks k : Nat} {o : Bool}

theorem run_spell_cons (s : LineState) (t : Token) (ts : List Token) :
    s.run (spell (t :: ts)) = (s.run t.text).bind (·.run (spell ts)) := by
  rw [spell_cons, run_append]

theorem run_spell_singleton (s : LineState) (t : Token) : s.run (spell [t]) = s.run t.text := by
  rw [spell_cons, spell_nil, List.append_nil]

theorem run_within {t : Text} {c : Char} (ht : '\n' ∉ t ++ [c]) :
    (within blanks k o).run (t ++ [c]) = some (.within blanks k (isOpening c)) := by
  induction t generalizing o with
  | nil =>
    have hc : c ≠ '\n' := by simpa [eq_comm] using ht
    simp [run_cons, next, hc]
  | cons d ds ih =>
    obtain ⟨hd, hds⟩ : '\n' ≠ d ∧ '\n' ∉ ds ++ [c] := by simpa using ht
    rw [List.cons_append, run_cons, next, if_neg hd.symm]
    exact ih hds

theorem run_mark {c : Char} (hc : c ≠ '\n') :
    (within blanks k o).run (Token.mark c).text = some (.within blanks k (isOpening c)) :=
  run_within (t := []) (by simpa [eq_comm] using hc)

theorem run_text {t : Token} (ht : t.Plain) (hfeed : t.isFeed = false) :
    ∃ o', (within blanks k o).run t.text = some (.within blanks k o') ∧ (t.Ends → o' = false) := by
  cases t with
  | literal value =>
    exact ⟨false, run_within (t := '"' :: value.flatMap escaped) (not_mem_quoted (.inl rfl)),
      fun _ => rfl⟩
  | mark c =>
    have hc : c ≠ '\n' := by
      rintro rfl
      simp [Token.Plain] at ht
    exact ⟨isOpening c, run_mark hc, id⟩
  | feed depth => simp [Token.isFeed] at hfeed

theorem run_inline {ts : List Token} (hplain : ∀ t ∈ ts, t.Plain)
    (hfeed : ∀ t ∈ ts, t.isFeed = false) :
    ∃ o', (within blanks k o).run (spell ts) = some (.within blanks k o') := by
  induction ts generalizing o with
  | nil => exact ⟨o, rfl⟩
  | cons t ts ih =>
    rw [List.forall_mem_cons] at hplain hfeed
    obtain ⟨o', hrun, -⟩ := run_text hplain.1 hfeed.1
    rw [run_spell_cons, hrun]
    exact ih hplain.2 hfeed.2

theorem run_tabs (depth tabs n : Nat) :
    (fresh blanks depth tabs).run (List.replicate n '\t') =
      some (.fresh blanks depth (tabs + n)) := by
  induction n generalizing tabs with
  | zero => rfl
  | succ n ih =>
    rw [List.replicate_succ, run_cons, next, if_pos rfl, Option.bind_some, ih, Nat.add_right_comm,
      Nat.add_assoc]

theorem run_feed (depth : Nat) :
    (within blanks k o).run (Token.feed depth).text =
      some (.fresh blanks (if o then k + 1 else k) depth) := by
  rw [Token.text, run_cons, next, if_pos rfl, Option.bind_some, run_tabs, Nat.zero_add]

theorem run_blank (depth tabs depth' : Nat) :
    (fresh blanks depth tabs).run (Token.feed depth').text =
      some (.fresh (blanks + 1) depth depth') := by
  have hnext : (fresh blanks depth tabs).next '\n' = some (.fresh (blanks + 1) depth 0) := rfl
  rw [Token.text, run_cons, hnext, Option.bind_some, run_tabs, Nat.zero_add]

/-- A line that begins at the depth that the lines before lead to goes on like any other. -/
theorem next_entry {c : Char} (hvisible : visible c) (hclosing : isClosing c = false) :
    (fresh blanks k k).next c = (within blanks k o).next c := by
  have htab : c ≠ '\t' := ne_tab_of_visible hvisible
  have hfeed : c ≠ '\n' := by
    rintro rfl
    exact absurd hvisible (by decide)
  simp [next, htab, hfeed, hvisible, hclosing]

theorem run_entry {ts : List Token} (h : Framed ts) :
    (fresh blanks k k).run (spell ts) = (within blanks k o).run (spell ts) := by
  rcases h.first with ⟨t, us, rfl, ht⟩
  cases t with
  | literal value =>
    rw [spell_cons, Token.text, quoted, List.cons_append, List.cons_append, run_cons, run_cons,
      next_entry (o := o) (by decide) (by decide)]
  | mark c =>
    rw [spell_cons, Token.text, List.singleton_append, run_cons, run_cons,
      next_entry (o := o) ht.1 ht.2]
  | feed depth => exact ht.elim

/-- A line that closes what the lines before have o. -/
theorem run_closing {c : Char} (hc : isClosing c) :
    (fresh blanks (k + 1) k).run (Token.mark c).text = some (.within blanks k false) := by
  have htab : c ≠ '\t' := ne_tab_of_visible (visible_of_isClosing hc)
  have hfeed : c ≠ '\n' := by
    rintro rfl
    exact absurd hc (by decide)
  simp [Token.text, run_cons, next, htab, hfeed, hc]

end LineState

def total {α : Type} (count : α → Nat) : List α → Nat
  | [] => 0
  | a :: as => count a + total count as

theorem total_zero {α : Type} (as : List α) : total (fun _ => 0) as = 0 := by
  induction as with
  | nil => rfl
  | cons a as ih => rw [total, ih]

/-- Tokens that begin and end in lines of depth `k`, the last of which opens nothing, with `n` blank
lines in between. -/
def KeepsDepth (k n : Nat) (ts : List Token) : Prop :=
  ∀ blanks opened,
    (LineState.within blanks k opened).run (spell ts) = some (.within (blanks + n) k false)

namespace KeepsDepth

variable {k n m : Nat} {ts us : List Token}

theorem append (hts : KeepsDepth k n ts) (hus : KeepsDepth k m us) :
    KeepsDepth k (n + m) (ts ++ us) := by
  intro blanks opened
  rw [spell_append, LineState.run_append, hts blanks opened, ← Nat.add_assoc]
  exact hus (blanks + n) false

/-- Tokens on one line. -/
theorem of_inline (hplain : ∀ t ∈ ts, t.Plain) (hfeed : ∀ t ∈ ts, t.isFeed = false)
    (h : Framed ts) : KeepsDepth k 0 ts := by
  rcases h.last with ⟨us, t, rfl, ht⟩
  rw [List.forall_mem_append, List.forall_mem_singleton] at hplain hfeed
  intro blanks opened
  obtain ⟨o, hrun⟩ := LineState.run_inline hplain.1 hfeed.1
  obtain ⟨o', hrun', ho'⟩ := LineState.run_text hplain.2 hfeed.2
  rw [spell_append, LineState.run_append, hrun, Option.bind_some, LineState.run_spell_singleton,
    hrun', ho' ht, Nat.add_zero]

section Parts

variable {α : Type} {as : List α} {part : α → List Token} {count : α → Nat}

theorem intercalate {separator : List Token} (hseparator : KeepsDepth k 0 separator) (hne : as ≠ [])
    (h : ∀ a ∈ as, KeepsDepth k (count a) (part a)) :
    KeepsDepth k (total count as) (separator.intercalate (as.map part)) := by
  induction as with
  | nil => exact absurd rfl hne
  | cons a as ih =>
    rcases List.forall_mem_cons.mp h with ⟨ha, has⟩
    cases as with
    | nil => simpa [total] using ha
    | cons b bs =>
      have hsplit : separator.intercalate ((a :: b :: bs).map part) =
          part a ++ separator ++ separator.intercalate ((b :: bs).map part) :=
        List.intercalate_cons_cons
      rw [hsplit, total, ← Nat.add_zero (count a)]
      exact (ha.append hseparator).append (ih (List.cons_ne_nil b bs) has)

/-- Entries on lines of their own. -/
theorem intercalate_feed (hne : as ≠ []) (hframed : ∀ a ∈ as, Framed (part a))
    (h : ∀ a ∈ as, KeepsDepth k (count a) (part a)) :
    KeepsDepth k (total count as) ([.mark ',', .feed k].intercalate (as.map part)) := by
  induction as with
  | nil => exact absurd rfl hne
  | cons a as ih =>
    rcases List.forall_mem_cons.mp h with ⟨ha, has⟩
    rcases List.forall_mem_cons.mp hframed with ⟨-, hframed⟩
    cases as with
    | nil => simpa [total] using ha
    | cons b bs =>
      have hrest := ih (List.cons_ne_nil b bs) hframed has
      have hentry : Framed ([.mark ',', .feed k].intercalate ((b :: bs).map part)) :=
        .intercalate (by simp) (List.forall_mem_map.mpr hframed)
      have hsplit : [.mark ',', .feed k].intercalate ((a :: b :: bs).map part) =
          part a ++ [.mark ',', .feed k] ++ [.mark ',', .feed k].intercalate ((b :: bs).map part) :=
        List.intercalate_cons_cons
      rw [hsplit, total, List.append_assoc]
      apply ha.append
      intro blanks opened
      rw [List.cons_append, List.cons_append, List.nil_append, LineState.run_spell_cons,
        LineState.run_mark (by decide), Option.bind_some, LineState.run_spell_cons,
        LineState.run_feed, Option.bind_some]
      exact (LineState.run_entry hentry).trans (hrest blanks false)

theorem run_blockTokens (hne : as ≠ []) (hframed : ∀ a ∈ as, Framed (part a))
    (h : ∀ a ∈ as, KeepsDepth (k + 1) (count a) (part a)) (blanks : Nat) :
    (LineState.within blanks k true).run (spell (Expression.blockTokens k (as.map part))) =
      some (.fresh (blanks + total count as) (k + 1) k) := by
  have hparts := intercalate_feed hne hframed h
  have hentry : Framed ([.mark ',', .feed (k + 1)].intercalate (as.map part)) :=
    .intercalate (by simpa using hne) (List.forall_mem_map.mpr hframed)
  rw [Expression.blockTokens, List.cons_append, LineState.run_spell_cons, LineState.run_feed,
    Option.bind_some, spell_append, LineState.run_append, if_pos rfl,
    LineState.run_entry (o := false) hentry, hparts blanks false, Option.bind_some,
    LineState.run_spell_singleton, LineState.run_feed, if_neg Bool.false_ne_true]

theorem run_inlineTokens (h : ∀ a ∈ as, KeepsDepth k (count a) (part a)) (blanks : Nat) :
    ∃ o, (LineState.within blanks k true).run (spell (Expression.inlineTokens (as.map part))) =
      some (.within (blanks + total count as) k o) := by
  have hseparator : KeepsDepth k 0 [.mark ',', .mark ' '] :=
    .of_inline (by decide) (by decide) (.pair (by decide) (by decide))
  by_cases hne : as = []
  · subst hne
    exact ⟨true, rfl⟩
  · exact ⟨false, hseparator.intercalate hne h blanks true⟩

end Parts

/-- A bracket, what follows it in its line and below, and the bracket that closes it. -/
theorem enclosed {opening closing : Char} (hopening : isOpening opening)
    (h : ∀ blanks, ∃ s, (LineState.within blanks k true).run (spell ts) = some s ∧
      s.run (Token.mark closing).text = some (.within (blanks + n) k false)) :
    KeepsDepth k n (.mark opening :: ts ++ [.mark closing]) := by
  have hfeed : opening ≠ '\n' := by
    rintro rfl
    exact absurd hopening (by decide)
  intro blanks opened
  obtain ⟨s, hcontent, hclosing⟩ := h blanks
  rw [List.cons_append, LineState.run_spell_cons, LineState.run_mark hfeed, hopening,
    Option.bind_some, spell_append, LineState.run_append, hcontent, Option.bind_some,
    LineState.run_spell_singleton, hclosing]

end KeepsDepth

namespace Expression

variable {bare : Prop} {k : Nat}

mutual
/-- The calls on several lines that have no arguments. -/
def bareCalls : Expression → Nat
  | .list entries => bareCallsAll entries
  | .call _ arguments => (if arguments.isEmpty then 1 else 0) + bareCallsAll arguments
  | .inlineCall _ arguments => bareCallsAll arguments
  | .labeled _ value | .reported _ value => bareCalls value
  | .literal _ | .symbol _ | .strings _ | .requirement _ | .absent => 0

def bareCallsAll : List Expression → Nat
  | [] => 0
  | e :: es => bareCalls e + bareCallsAll es
end

theorem bareCallsAll_eq_total (es : List Expression) : bareCallsAll es = total bareCalls es := by
  induction es with
  | nil => rfl
  | cons e es ih => rw [bareCallsAll, ih, total]

theorem bareCallsAll_append (es es' : List Expression) :
    bareCallsAll (es ++ es') = bareCallsAll es + bareCallsAll es' := by
  induction es with
  | nil => exact (Nat.zero_add _).symm
  | cons e es ih => rw [List.cons_append, bareCallsAll, bareCallsAll, ih, Nat.add_assoc]

theorem bareCallsAll_eq_zero {es : List Expression} (h : ∀ e ∈ es, e.bareCalls = 0) :
    bareCallsAll es = 0 := by
  induction es with
  | nil => rfl
  | cons e es ih =>
    rcases List.forall_mem_cons.mp h with ⟨he, hes⟩
    rw [bareCallsAll, he, ih hes]

theorem bareCalls_eq_zero {e : Expression} (hbare : ¬ bare) (he : e.WellFormed bare) :
    e.bareCalls = 0 := by
  induction e with
  | list entries ih =>
    apply bareCallsAll_eq_zero
    intro e h
    exact ih e h (allWellFormed_iff.mp he e h)
  | call keyword arguments ih =>
    rcases he with ⟨-, hnone, harguments⟩
    have hzero := bareCallsAll_eq_zero fun e h => ih e h (allWellFormed_iff.mp harguments e h)
    have hne : arguments ≠ [] := fun h => hbare (hnone h)
    simp [bareCalls, hzero, hne]
  | inlineCall keyword arguments ih =>
    apply bareCallsAll_eq_zero
    intro e h
    exact ih e h (allWellFormed_iff.mp he.2 e h)
  | labeled label value ih => exact ih he.2
  | reported event value ih => exact ih he
  | _ => rfl

theorem keepsDepth_literal (value : Text) : KeepsDepth k 0 [.literal value] :=
  .of_inline (by simp [Token.Plain]) (by simp [Token.isFeed])
    ⟨⟨_, [], rfl, trivial⟩, [], _, rfl, trivial⟩

theorem keepsDepth_names {t : Text} (hne : t ≠ []) (h : ∀ c ∈ t, nameChar c) :
    KeepsDepth k 0 (marks t) := by
  refine .of_inline (plain_names h) (fun m hm => ?_) (framed_marks hne h)
  obtain ⟨c, -, rfl⟩ := List.mem_map.mp hm
  rfl

theorem keepsDepth_requirementTokens (constraint : Text) :
    KeepsDepth k 0 (requirementTokens constraint) := by
  refine .of_inline (plain_requirementTokens _) (fun t ht => ?_) (framed_requirementTokens _)
  rcases mem_requirementTokens ht with ⟨value, rfl⟩ | ⟨c, -, rfl⟩ <;> rfl

theorem keepsDepth_tokens {e : Expression} (he : e.WellFormed bare) (k : Nat) :
    KeepsDepth k e.bareCalls (e.tokens k) := by
  induction e generalizing k with
  | literal value => exact keepsDepth_literal value.toList
  | symbol name => exact keepsDepth_names (List.cons_ne_nil _ _) (nameChar_of_mem_symbol he)
  | strings values =>
    have hparts : ∀ v ∈ values, KeepsDepth k 0 [.literal v.toList] :=
      fun v _ => keepsDepth_literal v.toList
    refine .enclosed (by decide) ?_
    intro blanks
    obtain ⟨o, hrun⟩ := KeepsDepth.run_inlineTokens hparts blanks
    rw [total_zero] at hrun
    exact ⟨_, hrun, LineState.run_mark (by decide)⟩
  | requirement constraint => exact keepsDepth_requirementTokens _
  | absent => exact keepsDepth_names (by decide) (by decide)
  | list entries ih =>
    have hparts := fun e h => ih e h (allWellFormed_iff.mp he e h) (k + 1)
    have hframed := fun e h => framed_tokens (allWellFormed_iff.mp he e h) (k + 1)
    refine .enclosed (by decide) ?_
    intro blanks
    rw [allTokens_eq_map, bareCalls, bareCallsAll_eq_total]
    by_cases hempty : entries = []
    · subst hempty
      exact ⟨_, rfl, LineState.run_mark (by decide)⟩
    · rw [if_neg (by simpa using hempty)]
      exact ⟨_, KeepsDepth.run_blockTokens hempty hframed hparts blanks,
        LineState.run_closing (by decide)⟩
  | call keyword arguments ih =>
    rcases he with ⟨hkeyword, -, harguments⟩
    have hparts := fun e h => ih e h (allWellFormed_iff.mp harguments e h) (k + 1)
    have hframed := fun e h => framed_tokens (allWellFormed_iff.mp harguments e h) (k + 1)
    rw [tokens, List.append_assoc, ← Nat.zero_add (bareCalls _)]
    refine (keepsDepth_names hkeyword.ne_nil hkeyword.chars).append
      (.enclosed (by decide) fun blanks => ?_)
    rw [allTokens_eq_map, bareCalls, bareCallsAll_eq_total]
    by_cases hempty : arguments = []
    · subst hempty
      have hlines : (LineState.within blanks k true).run (spell [.feed k, .feed k]) =
          some (.fresh (blanks + 1) (k + 1) k) := by
        rw [LineState.run_spell_cons, LineState.run_feed, Option.bind_some, if_pos rfl,
          LineState.run_spell_singleton, LineState.run_blank]
      exact ⟨_, hlines, LineState.run_closing (by decide)⟩
    · rw [if_neg (by simpa using hempty), if_neg (by simpa using hempty), Nat.zero_add]
      exact ⟨_, KeepsDepth.run_blockTokens hempty hframed hparts blanks,
        LineState.run_closing (by decide)⟩
  | inlineCall keyword arguments ih =>
    rcases he with ⟨hkeyword, harguments⟩
    have hparts := fun e h => ih e h (allWellFormed_iff.mp harguments e h) k
    rw [tokens, List.append_assoc, ← Nat.zero_add (bareCalls _)]
    refine (keepsDepth_names hkeyword.ne_nil hkeyword.chars).append
      (.enclosed (by decide) fun blanks => ?_)
    rw [allTokens_eq_map, bareCalls, bareCallsAll_eq_total]
    obtain ⟨o, hrun⟩ := KeepsDepth.run_inlineTokens hparts blanks
    exact ⟨_, hrun, LineState.run_mark (by decide)⟩
  | labeled label value ih =>
    rcases he with ⟨hlabel, hvalue⟩
    have hcolon : KeepsDepth k 0 [.mark ':', .mark ' '] :=
      .of_inline (by decide) (by decide) (.pair (by decide) (by decide))
    have h := (keepsDepth_names hlabel.ne_nil hlabel.chars).append (hcolon.append (ih hvalue k))
    simpa [tokens, bareCalls] using h
  | reported event value ih => exact ih he k

theorem nested_print {e : Expression} (he : e.WellFormed bare) :
    Nested 0 0 (lines e.print) e.bareCalls 0 := by
  have hplain := plain_tokens he 0
  have hframed := framed_tokens he 0
  have hfeed : (spell (e.tokens 0)).getLast? ≠ some '\n' :=
    (block_spell_of_framed hplain hframed).getLast?_ne (by decide)
  rw [print_eq_spell he]
  refine nested_lines (return_not_mem_spell hplain) hfeed ?_
  rw [LineState.run_entry (o := false) hframed, keepsDepth_tokens he 0, Nat.zero_add]

/-! The brackets of an expression. -/

theorem closesBrackets_names {t : Text} (h : ∀ c ∈ t, nameChar c) : ClosesBrackets (marks t) := by
  refine .marks ?_
  intro c hc
  have hbracket : c ∉ ['(', '[', ')', ']'] := (h c hc).not_mem (by decide)
  simp_all [isOpening, isClosing]

theorem closesBrackets_inlineTokens {parts : List (List Token)}
    (h : ∀ p ∈ parts, ClosesBrackets p) : ClosesBrackets (inlineTokens parts) :=
  .intercalate (.marks (t := [',', ' ']) (by decide)) h

theorem closesBrackets_blockTokens {parts : List (List Token)} (h : ∀ p ∈ parts, ClosesBrackets p)
    (k : Nat) : ClosesBrackets (blockTokens k parts) := by
  have hcomma : ClosesBrackets [.mark ','] := .marks (t := [',']) (by decide)
  have hparts := ClosesBrackets.intercalate (hcomma.append (.feed (k + 1))) h
  exact ((ClosesBrackets.feed (k + 1)).append hparts).append (.feed k)

theorem closesBrackets_requirementTokens (constraint : Text) :
    ClosesBrackets (requirementTokens constraint) := by
  have hchars :
      ∀ c ∈ "from: ".toList ++ operatorChars, isOpening c = false ∧ isClosing c = false := by
    decide
  refine .of_forall ?_
  intro t ht
  rcases mem_requirementTokens ht with ⟨value, rfl⟩ | ⟨c, hc, rfl⟩
  · exact .literal value
  · exact .marks (t := [c]) (by simpa using hchars c hc)

theorem closesBrackets_parts {es : List Expression} (hes : AllWellFormed bare es)
    (h : ∀ e ∈ es, e.WellFormed bare → ∀ k, ClosesBrackets (e.tokens k)) (k : Nat) :
    ∀ p ∈ allTokens k es, ClosesBrackets p := by
  apply forall_mem_allTokens (P := ClosesBrackets) hes
  intro e he hwell
  exact h e he hwell k

theorem closesBrackets_tokens {e : Expression} (he : e.WellFormed bare) (k : Nat) :
    ClosesBrackets (e.tokens k) := by
  induction e generalizing k with
  | literal value => exact .literal _
  | symbol name => exact closesBrackets_names (nameChar_of_mem_symbol he)
  | strings values =>
    have hparts : ∀ p ∈ values.map fun v => [Token.literal v.toList], ClosesBrackets p := by
      simpa using fun (v : String) _ => ClosesBrackets.literal v.toList
    exact (closesBrackets_inlineTokens hparts).enclosed (fun _ => rfl) fun _ => rfl
  | requirement constraint => exact closesBrackets_requirementTokens _
  | absent => exact closesBrackets_names (by decide)
  | list entries ih =>
    have hblock := closesBrackets_blockTokens (closesBrackets_parts he ih (k + 1)) k
    refine ClosesBrackets.enclosed ?_ (fun _ => rfl) fun _ => rfl
    split
    · exact .nil
    · exact hblock
  | call keyword arguments ih =>
    rcases he with ⟨hkeyword, -, harguments⟩
    have hblock := closesBrackets_blockTokens (closesBrackets_parts harguments ih (k + 1)) k
    rw [tokens, List.append_assoc]
    refine (closesBrackets_names hkeyword.chars).append
      (ClosesBrackets.enclosed ?_ (fun _ => rfl) fun _ => rfl)
    split
    · exact (ClosesBrackets.feed k).append (.feed k)
    · exact hblock
  | inlineCall keyword arguments ih =>
    rcases he with ⟨hkeyword, harguments⟩
    have hparts := closesBrackets_inlineTokens (closesBrackets_parts harguments ih k)
    rw [tokens, List.append_assoc]
    exact (closesBrackets_names hkeyword.chars).append
      (hparts.enclosed (fun _ => rfl) fun _ => rfl)
  | labeled label value ih =>
    rcases he with ⟨hlabel, hvalue⟩
    have hcolon : ClosesBrackets [.mark ':', .mark ' '] := .marks (t := [':', ' ']) (by decide)
    exact (closesBrackets_names hlabel.chars).append (hcolon.append (ih hvalue k))
  | reported event value ih => exact ih he k

theorem balanced_skeleton_print {e : Expression} (he : e.WellFormed bare) :
    Balanced (skeleton e.print) := by
  rw [print_eq_spell he, skeleton_spell (plain_tokens he 0)]
  exact closesBrackets_tokens he 0 []

end Expression

end SwiftManifest
