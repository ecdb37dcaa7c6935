import SwiftManifest.Proofs.Expression.Form
import SwiftManifest.Proofs.Expression.Tokens
import SwiftManifest.Proofs.Requirement.Injective

/-! The form of an expression: what its text says, apart from the layout. Whether entries share a
line is not part of it, so the text can be read without knowing how deep it stands. -/

namespace SwiftManifest

/-- Line feeds and spaces are layout. -/
def Token.kept : Token → Bool
  | .literal _ => true
  | .mark c => c ≠ ' '
  | .feed _ => false

namespace Expression

/-- A lower bound is read as an argument with a label. -/
def requirementForm (constraint : Text) : Form :=
  if operatorMatches constraint = [] then .labeled "from" (.atom [.literal constraint])
  else .atom (requirementTokens constraint)

theorem requirementForm_injective {s t : Text} (h : requirementForm s = requirementForm t) :
    s = t := by
  unfold requirementForm at h
  split at h
  · split at h
    · simpa using h
    · exact Form.noConfusion h
  · split at h
    · exact Form.noConfusion h
    · exact requirementTokens_injective (Form.atom.inj h)

mutual
def form : Expression → Form
  | .literal value => .atom [.literal value.toList]
  | .symbol name => .atom (marks ('.' :: name.toList))
  | .strings values => .list (values.map fun v => .atom [.literal v.toList])
  | .requirement constraint => requirementForm constraint.toList
  | .absent => .atom (marks "nil".toList)
  | .list entries => .list (forms entries)
  | .call keyword arguments | .inlineCall keyword arguments => .call keyword (forms arguments)
  | .labeled label value => .labeled label (form value)
  | .reported _ value => form value

def forms : List Expression → List Form
  | [] => []
  | e :: es => form e :: forms es
end

theorem forms_eq_map (es : List Expression) : forms es = es.map form := by
  induction es with
  | nil => rfl
  | cons e es ih => simp [forms, ih]

@[simp] theorem form_call (keyword : String) (arguments : List Expression) :
    form (.call keyword arguments) = .call keyword (forms arguments) := rfl

@[simp] theorem form_inlineCall (keyword : String) (arguments : List Expression) :
    form (.inlineCall keyword arguments) = .call keyword (forms arguments) := rfl

@[simp] theorem form_labeled (label : String) (value : Expression) :
    form (.labeled label value) = .labeled label (form value) := rfl

@[simp] theorem form_reported (event : Event) (value : Expression) :
    form (.reported event value) = form value := rfl

@[simp] theorem form_requirement_inj {constraint constraint' : String} :
    form (.requirement constraint) = form (.requirement constraint') ↔
      constraint = constraint' := by
  constructor
  · intro h
    exact String.toList_inj.mp (requirementForm_injective h)
  · intro h
    rw [h]

@[simp] theorem forms_nil : forms [] = [] := rfl

@[simp] theorem forms_cons (e : Expression) (es : List Expression) :
    forms (e :: es) = form e :: forms es := rfl

@[simp] theorem forms_append (es es' : List Expression) :
    forms (es ++ es') = forms es ++ forms es' := by
  simp [forms_eq_map]

theorem filter_kept_marks {t : Text} (h : ∀ c ∈ t, nameChar c) :
    (marks t).filter Token.kept = marks t := by
  apply List.filter_eq_self.mpr
  intro m hm
  obtain ⟨c, hc, rfl⟩ := List.mem_map.mp hm
  have hspace : c ∉ [' '] := (h c hc).not_mem (by decide)
  simpa [Token.kept] using hspace

theorem filter_kept_inlineTokens (parts : List (List Token)) :
    (inlineTokens parts).filter Token.kept =
      [.mark ','].intercalate (parts.map (·.filter Token.kept)) := by
  rw [inlineTokens, filter_intercalate]
  rfl

theorem filter_kept_blockTokens (k : Nat) (parts : List (List Token)) :
    (blockTokens k parts).filter Token.kept =
      [.mark ','].intercalate (parts.map (·.filter Token.kept)) := by
  simp [blockTokens, filter_intercalate, Token.kept]

theorem filter_kept_requirementTokens (constraint : Text) :
    (requirementTokens constraint).filter Token.kept = (requirementForm constraint).spine := by
  by_cases h : operatorMatches constraint = []
  · rw [requirementTokens_of_nil h, requirementForm, if_pos h]
    rfl
  · have hchars : ∀ c ∈ operatorChars, (Token.mark c).kept := by decide
    rw [requirementForm, if_neg h]
    apply List.filter_eq_self.mpr
    intro t ht
    rcases mem_requirementTokens_of_ne_nil h ht with ⟨value, rfl⟩ | ⟨c, hc, rfl⟩
    · rfl
    · exact hchars c hc

theorem filter_kept_parts {bare : Prop} {es : List Expression} {k : Nat}
    (hes : AllWellFormed bare es)
    (h : ∀ e ∈ es, e.WellFormed bare → ∀ k, (e.tokens k).filter Token.kept = e.form.spine) :
    [.mark ','].intercalate ((allTokens k es).map (·.filter Token.kept)) =
      Form.spineAll (forms es) := by
  rw [Form.spineAll_eq_intercalate, allTokens_eq_map, forms_eq_map, List.map_map, List.map_map]
  exact congrArg _ (List.map_congr_left fun e he => h e he (allWellFormed_iff.mp hes e he) k)

/-- The tokens of an expression at any depth, less the layout, are its form. -/
theorem filter_kept_tokens {bare : Prop} {e : Expression} (he : e.WellFormed bare) (k : Nat) :
    (e.tokens k).filter Token.kept = e.form.spine := by
  induction e generalizing k with
  | literal value => rfl
  | symbol name => exact filter_kept_marks (nameChar_of_mem_symbol he)
  | strings values =>
    have hliteral (v : String) :
        [Token.literal v.toList].filter Token.kept = [.literal v.toList] := rfl
    simp [tokens, form, Form.spine, Form.spineAll_eq_intercalate, filter_kept_inlineTokens,
      Token.kept, hliteral, Function.comp_def]
  | requirement constraint => exact filter_kept_requirementTokens _
  | absent => exact filter_kept_marks (by decide)
  | list entries ih =>
    have hparts := filter_kept_parts (k := k + 1) he ih
    by_cases hempty : entries = []
    · simp [tokens, form, hempty, Form.spine, Form.spineAll, Token.kept]
    · simp [tokens, form, hempty, filter_kept_blockTokens, hparts, Form.spine, Token.kept]
  | call keyword arguments ih =>
    rcases he with ⟨hkeyword, -, harguments⟩
    have hname := filter_kept_marks hkeyword.chars
    have hparts := filter_kept_parts (k := k + 1) harguments ih
    by_cases hempty : arguments = []
    · simp [tokens, form, hempty, Form.spine, Form.spineAll, Token.kept, hname]
    · simp [tokens, form, hempty, filter_kept_blockTokens, hparts, Form.spine, Token.kept, hname]
  | inlineCall keyword arguments ih =>
    rcases he with ⟨hkeyword, harguments⟩
    have hname := filter_kept_marks hkeyword.chars
    have hparts := filter_kept_parts (k := k) harguments ih
    simp [tokens, form, filter_kept_inlineTokens, hparts, Form.spine, Token.kept, hname]
  | labeled label value ih =>
    simp [tokens, form, Form.spine, Token.kept, filter_kept_marks he.1.chars, ih he.2]
  | reported event value ih => exact ih he k

theorem solid_names {t : Text} (h : ∀ c ∈ t, nameChar c) : Form.Solid (marks t) := by
  intro c hc hmem
  obtain ⟨d, hd, heq⟩ := List.mem_map.mp hmem
  obtain rfl := Token.mark.inj heq
  exact (h d hd).not_mem (by decide) hc

theorem solid_literal (value : Text) : Form.Solid [.literal value] := by
  simp [Form.Solid]

theorem readable_requirementForm (constraint : Text) : (requirementForm constraint).Readable := by
  unfold requirementForm
  split
  · exact .labeled (solid_names (by decide)) (.atom (by simp) (solid_literal _))
  · rename_i h
    have hchars : ∀ c ∈ operatorChars, c ∉ Form.separators := by decide
    refine .atom (requirementTokens_ne_nil constraint) ?_
    intro c hc hmem
    rcases mem_requirementTokens_of_ne_nil h hmem with ⟨value, heq⟩ | ⟨d, hd, heq⟩
    · exact Token.noConfusion heq
    · obtain rfl := Token.mark.inj heq
      exact hchars c hd hc

theorem readable_forms {bare : Prop} {es : List Expression} (hes : AllWellFormed bare es)
    (h : ∀ e ∈ es, e.WellFormed bare → e.form.Readable) : ∀ f ∈ forms es, f.Readable := by
  intro f hf
  rw [forms_eq_map] at hf
  obtain ⟨e, he, rfl⟩ := List.mem_map.mp hf
  exact h e he (allWellFormed_iff.mp hes e he)

theorem readable_form {bare : Prop} {e : Expression} (he : e.WellFormed bare) :
    e.form.Readable := by
  induction e with
  | literal value => exact .atom (by simp) (solid_literal _)
  | symbol name => exact .atom (by simp) (solid_names (nameChar_of_mem_symbol he))
  | strings values =>
    refine .list ?_
    intro f hf
    obtain ⟨v, -, rfl⟩ := List.mem_map.mp hf
    exact .atom (by simp) (solid_literal _)
  | requirement constraint => exact readable_requirementForm _
  | absent => exact .atom (by decide) (solid_names (by decide))
  | list entries ih => exact .list (readable_forms he ih)
  | call keyword arguments ih =>
    exact .call (solid_names he.1.chars) (readable_forms he.2.2 ih)
  | inlineCall keyword arguments ih =>
    exact .call (solid_names he.1.chars) (readable_forms he.2 ih)
  | labeled label value ih => exact .labeled (solid_names he.1.chars) (ih he.2)
  | reported event value ih => exact ih he

/-- The text of an expression determines its form. -/
theorem form_eq_of_print_eq {bare bare' : Prop} {e e' : Expression} (he : e.WellFormed bare)
    (he' : e'.WellFormed bare') (h : e.print = e'.print) : e.form = e'.form := by
  rw [print_eq_spell he, print_eq_spell he'] at h
  have htokens := spell_injective (plain_tokens he 0) (plain_tokens he' 0) h
  refine Form.spine_injective (readable_form he) (readable_form he') ?_
  rw [← filter_kept_tokens he 0, ← filter_kept_tokens he' 0, htokens]

end Expression

end SwiftManifest
