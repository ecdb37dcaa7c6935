/-! Rendered text as a list of characters: its length, its lines, and the indentation of a block by
one tab. -/

namespace SwiftManifest

abbrev Text := List Char

/-- Decided by going through the text, not through all characters that there are. -/
instance {p : Char → Prop} [DecidablePred p] (t : Text) : Decidable (∀ c ∈ t, p c) :=
  t.decidableBAll p

/-- The number of bytes of a text in UTF-8. -/
def utf8Length : Text → Nat
  | [] => 0
  | c :: cs => c.utf8Size + utf8Length cs

/-- The lines of a text. A line feed ends a line, together with one carriage return right before it;
a line feed at the very end opens no further line. -/
def lines : Text → List Text
  | [] => []
  | '\n' :: cs => [] :: lines cs
  | '\r' :: '\n' :: cs => [] :: lines cs
  | c :: cs =>
    match lines cs with
    | [] => [[c]]
    | l :: ls => (c :: l) :: ls

theorem lines_eq_nil_iff {t : Text} : lines t = [] ↔ t = [] := by
  fun_cases lines t <;> simp

def joined (separator : String) (parts : List Text) : Text :=
  separator.toList.intercalate parts

theorem joined_cons_of_ne_nil (separator : String) (part : Text) {parts : List Text}
    (h : parts ≠ []) :
    joined separator (part :: parts) = part ++ (separator.toList ++ joined separator parts) := by
  simp [joined, List.intercalate_cons_of_ne_nil h]

/-- Every line of a block moved one tab to the right. -/
def indent (block : Text) : Text :=
  joined "\n" ((lines block).map ('\t' :: ·))

end SwiftManifest
