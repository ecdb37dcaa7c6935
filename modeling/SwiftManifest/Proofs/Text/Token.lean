import SwiftManifest.Proofs.Text.Quoted

/-! Manifest text as tokens: literals, single characters, and line feeds together with the tabs
behind them. Tokens with plain characters only are spelled in one way. -/

namespace SwiftManifest

section Separated

variable {α β : Type}

theorem flatMap_intercalate (f : α → List β) (separator : List α) (parts : List (List α)) :
    (separator.intercalate parts).flatMap f =
      (separator.flatMap f).intercalate (parts.map (·.flatMap f)) := by
  induction parts with
  | nil => rfl
  | cons p ps ih => cases ps <;> simp_all

theorem map_intercalate (f : α → β) (separator : List α) (parts : List (List α)) :
    (separator.intercalate parts).map f = (separator.map f).intercalate (parts.map (·.map f)) := by
  simpa [List.map_eq_flatMap, Function.comp_def] using
    flatMap_intercalate (fun a => [f a]) separator parts

theorem filter_intercalate (keep : α → Bool) (separator : List α) (parts : List (List α)) :
    (separator.intercalate parts).filter keep =
      (separator.filter keep).intercalate (parts.map (·.filter keep)) := by
  induction parts with
  | nil => rfl
  | cons p ps ih => cases ps <;> simp_all

theorem forall_mem_intercalate {P : α → Prop} {separator : List α} {parts : List (List α)}
    (hseparator : ∀ a ∈ separator, P a) (hparts : ∀ p ∈ parts, ∀ a ∈ p, P a) :
    ∀ a ∈ separator.intercalate parts, P a := by
  induction parts with
  | nil => simp
  | cons p ps ih =>
    rcases List.forall_mem_cons.mp hparts with ⟨hp, hps⟩
    cases ps with
    | nil => simpa using hp
    | cons q qs =>
      rw [List.intercalate_cons_cons, List.forall_mem_append, List.forall_mem_append]
      exact ⟨⟨hp, hseparator⟩, ih hps⟩

end Separated

inductive Token where
  | literal (value : Text)
  | mark (c : Char)
  | feed (depth : Nat)
  deriving DecidableEq, Repr

namespace Token

def text : Token → Text
  | .literal value => quoted value
  | .mark c => [c]
  | .feed depth => '\n' :: List.replicate depth '\t'

/-- Quotes, line feeds, carriage returns and tabs do not stand for themselves. -/
def Plain : Token → Prop
  | .mark c => c ∉ ['"', '\n', '\r', '\t']
  | _ => True

instance : (t : Token) → Decidable t.Plain
  | .literal _ | .feed _ => .isTrue trivial
  | .mark c => inferInstanceAs (Decidable (c ∉ _))

def isFeed : Token → Bool
  | .feed _ => true
  | _ => false

/-- The token one tab further right. -/
def deeper : Token → Token
  | .feed depth => .feed (depth + 1)
  | t => t

end Token

def marks (t : Text) : List Token := t.map Token.mark

def spell (ts : List Token) : Text := ts.flatMap Token.text

@[simp] theorem spell_nil : spell [] = [] := rfl

@[simp] theorem spell_cons (t : Token) (ts : List Token) :
    spell (t :: ts) = t.text ++ spell ts := List.flatMap_cons

@[simp] theorem spell_append (ts us : List Token) : spell (ts ++ us) = spell ts ++ spell us :=
  List.flatMap_append

@[simp] theorem spell_marks (t : Text) : spell (marks t) = t := by
  induction t with
  | nil => rfl
  | cons c cs ih => simpa [marks, Token.text] using ih

@[simp] theorem marks_nil : marks [] = [] := rfl

@[simp] theorem marks_cons (c : Char) (cs : Text) : marks (c :: cs) = .mark c :: marks cs := rfl

@[simp] theorem marks_append (t u : Text) : marks (t ++ u) = marks t ++ marks u :=
  List.map_append

theorem spell_intercalate (separator : List Token) (parts : List (List Token)) :
    spell (separator.intercalate parts) = (spell separator).intercalate (parts.map spell) :=
  flatMap_intercalate _ _ _

theorem marks_injective {t u : Text} (h : marks t = marks u) : t = u := by
  simpa using congrArg spell h

theorem plain_marks {t : Text} (h : ∀ c ∈ t, c ∉ ['"', '\n', '\r', '\t']) :
    ∀ m ∈ marks t, m.Plain := by
  intro m hm
  obtain ⟨c, hc, rfl⟩ := List.mem_map.mp hm
  exact h c hc

@[simp] theorem map_deeper_marks (t : Text) : (marks t).map Token.deeper = marks t := by
  simp [marks, Token.deeper]

theorem Token.text_ne_nil (t : Token) : t.text ≠ [] := by
  cases t <;> simp [text, quoted]

theorem spell_eq_nil_iff {ts : List Token} : spell ts = [] ↔ ts = [] := by
  cases ts <;> simp [Token.text_ne_nil]

/-- Only a line feed starts with one, so the tabs behind a line feed are all its own. -/
theorem head?_spell_ne_tab {ts : List Token} (hts : ∀ t ∈ ts, t.Plain) (rest : Text) :
    spell ts ≠ '\t' :: rest := by
  cases ts with
  | nil => simp
  | cons t ts =>
    have ht := hts t (by simp)
    cases t with
    | mark c =>
      intro h
      simp_all [Token.text, Token.Plain]
    | _ => simp [Token.text, quoted]

theorem replicate_append_inj {c : Char} {n m : Nat} {t u : Text}
    (ht : ∀ rest, t ≠ c :: rest) (hu : ∀ rest, u ≠ c :: rest)
    (h : List.replicate n c ++ t = List.replicate m c ++ u) : n = m ∧ t = u := by
  induction n generalizing m with
  | zero =>
    cases m with
    | zero => simpa using h
    | succ m => exact absurd h (ht _)
  | succ n ih =>
    cases m with
    | zero => exact absurd h.symm (hu _)
    | succ m => simpa using ih (by simpa [List.replicate_succ] using h)

/-- The first token of a text is found again, as long as no further tab follows it. -/
theorem Token.text_append_inj {t u : Token} (ht : t.Plain) (hu : u.Plain) {x y : Text}
    (hx : ∀ rest, x ≠ '\t' :: rest) (hy : ∀ rest, y ≠ '\t' :: rest)
    (h : t.text ++ x = u.text ++ y) : t = u ∧ x = y := by
  cases t with
  | literal value =>
    cases u with
    | literal value' =>
      obtain ⟨rfl, hrest⟩ := quoted_append_inj h
      exact ⟨rfl, hrest⟩
    | mark c =>
      obtain ⟨rfl, _⟩ := List.cons.inj h
      simp [Plain] at hu
    | feed depth => simp [text, quoted] at h
  | mark c =>
    cases u with
    | mark c' =>
      obtain ⟨rfl, hrest⟩ := List.cons.inj h
      exact ⟨rfl, hrest⟩
    | _ =>
      obtain ⟨rfl, _⟩ := List.cons.inj h
      simp [Plain] at ht
  | feed depth =>
    cases u with
    | literal value => simp [text, quoted] at h
    | mark c =>
      obtain ⟨rfl, _⟩ := List.cons.inj h
      simp [Plain] at hu
    | feed depth' =>
      obtain ⟨rfl, hrest⟩ := replicate_append_inj hx hy (List.cons.inj h).2
      exact ⟨rfl, hrest⟩

theorem spell_injective {ts us : List Token} (hts : ∀ t ∈ ts, t.Plain) (hus : ∀ u ∈ us, u.Plain)
    (h : spell ts = spell us) : ts = us := by
  induction ts generalizing us with
  | nil => exact (spell_eq_nil_iff.mp h.symm).symm
  | cons t ts ih =>
    cases us with
    | nil => exact absurd (spell_eq_nil_iff.mp h) (List.cons_ne_nil t ts)
    | cons u us =>
      rcases List.forall_mem_cons.mp hts with ⟨ht, hrest⟩
      rcases List.forall_mem_cons.mp hus with ⟨hu, hrest'⟩
      obtain ⟨rfl, heq⟩ := Token.text_append_inj ht hu (head?_spell_ne_tab hrest)
        (head?_spell_ne_tab hrest') h
      rw [ih hrest hrest' heq]

end SwiftManifest
