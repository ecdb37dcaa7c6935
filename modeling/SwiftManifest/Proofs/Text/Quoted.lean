import SwiftManifest.Text.Quoted

/-! A quoted text delimits itself: a reader behind its opening quote finds the text and what follows
it, whatever that is. An array literal does so too, read one literal after the other. -/

namespace SwiftManifest

/-- Reads a literal behind its opening quote, and returns its text with what follows it. -/
def readLiteral : Text → Option (Text × Text)
  | [] => none
  | '"' :: cs => some ([], cs)
  | '\\' :: '"' :: cs => (readLiteral cs).map fun r => ('"' :: r.1, r.2)
  | '\\' :: '\\' :: cs => (readLiteral cs).map fun r => ('\\' :: r.1, r.2)
  | '\\' :: 'n' :: cs => (readLiteral cs).map fun r => ('\n' :: r.1, r.2)
  | '\\' :: 'r' :: cs => (readLiteral cs).map fun r => ('\r' :: r.1, r.2)
  | '\\' :: _ => none
  | c :: cs => (readLiteral cs).map fun r => (c :: r.1, r.2)

theorem readLiteral_escaped (c : Char) (cs : Text) :
    readLiteral (escaped c ++ cs) = (readLiteral cs).map fun r => (c :: r.1, r.2) := by
  fun_cases escaped c with
  | case5 c hquote hslash hfeed hreturn =>
    rw [List.singleton_append, readLiteral.eq_8] <;> simp_all
  | _ => rfl

theorem readLiteral_flatMap_escaped (value rest : Text) :
    readLiteral (value.flatMap escaped ++ '"' :: rest) = some (value, rest) := by
  induction value with
  | nil => rfl
  | cons c cs ih => rw [List.flatMap_cons, List.append_assoc, readLiteral_escaped, ih]; rfl

theorem length_of_readLiteral {t value rest : Text} (h : readLiteral t = some (value, rest)) :
    rest.length < t.length := by
  fun_induction readLiteral t generalizing value with
  | case1 | case7 => simp at h
  | case2 cs =>
    obtain ⟨-, rfl⟩ : [] = value ∧ cs = rest := by simpa using h
    exact Nat.lt_succ_self _
  | case3 cs ih | case4 cs ih | case5 cs ih | case6 cs ih | case8 _ cs _ _ _ _ _ _ ih =>
    obtain ⟨r, hread, heq⟩ := Option.map_eq_some_iff.mp h
    obtain ⟨-, rfl⟩ := Prod.mk.inj heq
    have hcs := ih hread
    simp only [List.length_cons]
    omega

theorem quoted_append (value rest : Text) :
    quoted value ++ rest = '"' :: (value.flatMap escaped ++ '"' :: rest) := by
  simp [quoted]

theorem quoted_append_inj {value value' rest rest' : Text}
    (h : quoted value ++ rest = quoted value' ++ rest') : value = value' ∧ rest = rest' := by
  rw [quoted_append, quoted_append, List.cons.injEq] at h
  have hread := congrArg readLiteral h.2
  simpa [readLiteral_flatMap_escaped] using hread

theorem not_mem_escaped {c d : Char} (hd : d = '\n' ∨ d = '\r') : d ∉ escaped c := by
  rcases hd with rfl | rfl
  all_goals
    fun_cases escaped c <;> simp_all [eq_comm]

/-- A literal keeps to its line. -/
theorem not_mem_quoted {value : Text} {d : Char} (hd : d = '\n' ∨ d = '\r') :
    d ∉ quoted value := by
  have hquote : d ≠ '"' := by rcases hd with rfl | rfl <;> decide
  simp [quoted, hquote, not_mem_escaped hd]

/-- Reads a literal with both its quotes. -/
def readQuoted : Text → Option (Text × Text)
  | '"' :: cs => readLiteral cs
  | _ => none

theorem readQuoted_quoted (value rest : Text) :
    readQuoted (quoted value ++ rest) = some (value, rest) := by
  rw [quoted_append, readQuoted, readLiteral_flatMap_escaped]

theorem length_of_readQuoted {t value rest : Text} (h : readQuoted t = some (value, rest)) :
    rest.length < t.length := by
  unfold readQuoted at h
  split at h
  · exact Nat.lt_succ_of_lt (length_of_readLiteral h)
  · simp at h

/-- Reads the literals of an array, from the first one up to the closing bracket. -/
def readLiterals (t : Text) : Option (List String × Text) :=
  match h : readQuoted t with
  | some (value, ']' :: rest) => some ([String.ofList value], rest)
  | some (value, ',' :: ' ' :: rest) =>
    have : rest.length < t.length :=
      Nat.lt_of_succ_lt (Nat.lt_of_succ_lt (length_of_readQuoted h))
    (readLiterals rest).map fun r => (String.ofList value :: r.1, r.2)
  | _ => none
termination_by t.length

/-- Reads an array literal of strings with both its brackets. -/
def readQuotedList : Text → Option (List String × Text)
  | '[' :: ']' :: rest => some ([], rest)
  | '[' :: cs => readLiterals cs
  | _ => none

section ArrayLiteral

variable {values values' : List String} (rest : Text)

theorem readLiterals_last (v : String) :
    readLiterals (quoted v.toList ++ ']' :: rest) = some ([v], rest) := by
  have hread := readQuoted_quoted v.toList (']' :: rest)
  rw [readLiterals]
  split <;> simp_all

theorem readLiterals_comma (v : String) :
    readLiterals (quoted v.toList ++ ',' :: ' ' :: rest) =
      (readLiterals rest).map fun r => (v :: r.1, r.2) := by
  have hread := readQuoted_quoted v.toList (',' :: ' ' :: rest)
  rw [readLiterals]
  split <;> simp_all

theorem readLiterals_joined (hne : values ≠ []) :
    readLiterals (joined ", " (values.map fun v => quoted v.toList) ++ ']' :: rest) =
      some (values, rest) := by
  induction values with
  | nil => exact absurd rfl hne
  | cons v vs ih =>
    cases vs with
    | nil => simpa [joined] using readLiterals_last rest v
    | cons w ws =>
      have hcons : joined ", " ((v :: w :: ws).map fun v => quoted v.toList) ++ ']' :: rest =
          quoted v.toList ++ ',' :: ' ' ::
            (joined ", " ((w :: ws).map fun v => quoted v.toList) ++ ']' :: rest) := by
        rw [List.map_cons, joined_cons_of_ne_nil ", " _ (by simp), List.append_assoc]
        rfl
      rw [hcons, readLiterals_comma, ih (List.cons_ne_nil w ws)]
      rfl

theorem readQuotedList_quotedList (values : List String) :
    readQuotedList (quotedList values ++ rest) = some (values, rest) := by
  cases values with
  | nil => rfl
  | cons v vs =>
    have hread := readLiterals_joined rest (List.cons_ne_nil v vs)
    -- no literal begins with the bracket that closes an array without any
    have hopen : ∀ cs, joined ", " ((v :: vs).map fun v => quoted v.toList) ++ ']' :: rest ≠
        ']' :: cs := by
      intro cs heq
      rw [heq, readLiterals] at hread
      simp [readQuoted] at hread
    rw [quotedList, List.append_assoc, List.cons_append, List.singleton_append,
      readQuotedList.eq_2 _ hopen, hread]

theorem quotedList_append_inj {rest rest' : Text}
    (h : quotedList values ++ rest = quotedList values' ++ rest') :
    values = values' ∧ rest = rest' := by
  have hread := congrArg readQuotedList h
  simpa [readQuotedList_quotedList] using hread

end ArrayLiteral

/-- Whatever follows them, literals and array literals are read back with exactly that left over. -/
theorem quoted_text_delimits_itself (value rest rest' : Text) (values values' : List String) :
    readQuoted (quoted value ++ rest) = some (value, rest) ∧
      ('\n' ∉ quoted value ∧ '\r' ∉ quoted value) ∧
      readQuotedList (quotedList values ++ rest) = some (values, rest) ∧
      (quotedList values ++ rest = quotedList values' ++ rest' ↔
        values = values' ∧ rest = rest') := by
  refine ⟨readQuoted_quoted value rest, ⟨not_mem_quoted (.inl rfl), not_mem_quoted (.inr rfl)⟩,
    readQuotedList_quotedList rest values, quotedList_append_inj, ?_⟩
  rintro ⟨rfl, rfl⟩
  rfl

end SwiftManifest
