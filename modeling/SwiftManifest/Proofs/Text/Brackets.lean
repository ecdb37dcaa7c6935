import SwiftManifest.Proofs.Text.Nesting
import SwiftManifest.Proofs.Text.Scan

/-! Brackets outside literals: each closing one is of the kind that was opened last. -/

namespace SwiftManifest

/-- Reading a character where the brackets of `due` are to be closed, the innermost first. -/
def bracketNext (due : List Char) : Char → Option (List Char)
  | '(' => some (')' :: due)
  | '[' => some (']' :: due)
  | c => if isClosing c then if due.head? = some c then some due.tail else none else some due

def brackets (due : List Char) (t : Text) : Option (List Char) := t.foldlM bracketNext due

/-- Round and square brackets are balanced and properly nested. -/
def Balanced (t : Text) : Prop := brackets [] t = some []

instance (t : Text) : Decidable (Balanced t) := inferInstanceAs (Decidable (_ = _))

theorem brackets_append (due : List Char) (t u : Text) :
    brackets due (t ++ u) = (brackets due t).bind (brackets · u) :=
  List.foldlM_append

theorem brackets_of_forall {t : Text} (ht : ∀ c ∈ t, isOpening c = false ∧ isClosing c = false)
    (due : List Char) : brackets due t = some due := by
  induction t with
  | nil => rfl
  | cons c cs ih =>
    rcases List.forall_mem_cons.mp ht with ⟨⟨hopening, hclosing⟩, hcs⟩
    have hnext : bracketNext due c = some due := by
      fun_cases bracketNext due c with
      | case1 => simp [isOpening] at hopening
      | case2 => simp [isOpening] at hopening
      | _ => simp_all
    rw [brackets, List.foldlM_cons, hnext]
    exact ih hcs

/-- Tokens that close what they open, and nothing else. -/
def ClosesBrackets (ts : List Token) : Prop :=
  ∀ due, brackets due (spell (ts.map Token.erased)) = some due

namespace ClosesBrackets

variable {ts us : List Token}

theorem nil : ClosesBrackets [] := fun _ => rfl

theorem append (hts : ClosesBrackets ts) (hus : ClosesBrackets us) : ClosesBrackets (ts ++ us) := by
  intro due
  rw [List.map_append, spell_append, brackets_append, hts due]
  exact hus due

theorem of_forall (h : ∀ t ∈ ts, ClosesBrackets [t]) : ClosesBrackets ts := by
  induction ts with
  | nil => exact nil
  | cons t ts ih =>
    rcases List.forall_mem_cons.mp h with ⟨ht, hts⟩
    exact ht.append (ih hts)

theorem intercalate {separator : List Token} (hseparator : ClosesBrackets separator)
    {parts : List (List Token)} (h : ∀ p ∈ parts, ClosesBrackets p) :
    ClosesBrackets (separator.intercalate parts) := by
  induction parts with
  | nil => exact nil
  | cons p ps ih =>
    rcases List.forall_mem_cons.mp h with ⟨hp, hps⟩
    cases ps with
    | nil => simpa using hp
    | cons q qs =>
      rw [List.intercalate_cons_cons]
      exact (hp.append hseparator).append (ih hps)

theorem literal (value : Text) : ClosesBrackets [.literal value] := fun _ => rfl

theorem feed (depth : Nat) : ClosesBrackets [.feed depth] := by
  intro due
  refine brackets_of_forall ?_ due
  simp [Token.erased, Token.text, isOpening, isClosing]

theorem marks {t : Text} (ht : ∀ c ∈ t, isOpening c = false ∧ isClosing c = false) :
    ClosesBrackets (marks t) := by
  intro due
  rw [map_erased_marks, spell_marks]
  exact brackets_of_forall ht due

theorem enclosed {opening closing : Char} (h : ClosesBrackets ts)
    (hopening : ∀ due, bracketNext due opening = some (closing :: due))
    (hclosing : ∀ due, bracketNext (closing :: due) closing = some due) :
    ClosesBrackets (.mark opening :: ts ++ [.mark closing]) := by
  intro due
  have hend : brackets (closing :: due) [closing] = some due := by
    rw [brackets, List.foldlM_cons, hclosing]
    rfl
  have hcontent :
      brackets (closing :: due) (spell (ts.map Token.erased) ++ [closing]) = some due := by
    rw [brackets_append, h, Option.bind_some, hend]
  rw [← hcontent, brackets, brackets]
  simp [Token.erased, Token.text, hopening]

end ClosesBrackets

end SwiftManifest
