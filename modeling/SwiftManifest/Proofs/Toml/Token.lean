import SwiftManifest.Toml.Printer

/-! TOML strings and keys read back, and the space between tokens passed over. -/

namespace SwiftManifest.Toml

theorem charOfHex?_ascii {n : Nat} (h : n < 0x80) :
    charOfHex? ['0', '0', Nat.digitChar (n / 16), Nat.digitChar (n % 16)] =
      some (Char.ofNat n) := by
  have hall : ∀ m : Fin 0x80,
      charOfHex? ['0', '0', Nat.digitChar (m.val / 16), Nat.digitChar (m.val % 16)] =
        some (Char.ofNat m.val) := by
    decide
  exact hall ⟨n, h⟩

theorem readBasic_escaped (c : Char) (cs : Text) :
    readBasic (escaped c ++ cs) = prepend c (readBasic cs) := by
  have short : ∀ e d : Char, e ≠ 'u' → e ≠ 'U' → shortEscape? e = some d →
      readBasic ('\\' :: e :: cs) = prepend d (readBasic cs) := by
    intro e d hu hU hd
    simp [readBasic, hu, hU, hd]
  unfold escaped
  split
  · exact short '"' '"' (by decide) (by decide) rfl
  · exact short '\\' '\\' (by decide) (by decide) rfl
  · exact short 'b' '\x08' (by decide) (by decide) rfl
  · exact short 'f' '\x0c' (by decide) (by decide) rfl
  · exact short 'n' '\n' (by decide) (by decide) rfl
  · exact short 'r' '\r' (by decide) (by decide) rfl
  · exact short 't' '\t' (by decide) (by decide) rfl
  · rename_i hquote hslash _ _ _ _ _
    split
    · rename_i hc
      simp_all [readBasic]
    · rename_i hc
      have hascii : c.toNat < 0x80 := by
        simp only [isPrintable, Bool.or_eq_true, Bool.and_eq_true, decide_eq_true_eq] at hc
        omega
      simp [readBasic, charOfHex?_ascii hascii, Char.ofNat_toNat]

theorem readBasic_text (value rest : Text) :
    readBasic (value.flatMap escaped ++ '"' :: rest) = some (value, rest) := by
  induction value with
  | nil => simp [readBasic]
  | cons c cs ih => simp [List.append_assoc, readBasic_escaped, ih, prepend]

/-- An escaped character never looks like the end of the string. -/
theorem escaped_ne_quote (c : Char) : ∃ e es, escaped c = e :: es ∧ e ≠ '"' := by
  unfold escaped
  split
  case h_8 hquote _ _ _ _ _ _ =>
    split
    · exact ⟨c, [], rfl, hquote⟩
    · exact ⟨'\\', _, rfl, by decide⟩
  all_goals exact ⟨'\\', _, rfl, by decide⟩

/-- What does not start with a quote; behind an empty string a quote would open a longer one. -/
def NoQuote (rest : Text) : Prop := ∀ cs, rest ≠ '"' :: cs

theorem readString_string (value : String) {rest : Text} (hrest : NoQuote rest) :
    readString (string value ++ rest) = some (value.toList, rest) := by
  have hread := readBasic_text value.toList rest
  rw [string]
  cases hvalue : value.toList with
  | nil =>
    cases rest with
    | nil => rfl
    | cons c cs =>
      have hc : c ≠ '"' := by
        rintro rfl
        exact hrest cs rfl
      simp [readString, hc, readBasic]
  | cons c cs =>
    obtain ⟨e, es, he, hne⟩ := escaped_ne_quote c
    rw [hvalue] at hread
    simp only [List.flatMap_cons, he, List.cons_append, List.append_assoc, List.nil_append]
      at hread ⊢
    simp [readString, hne, hread]

section Space

/-- What does not start with a blank, a comment or a line end. -/
def Solid (cs : Text) : Prop :=
  ∃ c rest, cs = c :: rest ∧ isBlank c = false ∧ c ≠ '#' ∧ c ≠ '\n' ∧ c ≠ '\r'

theorem Solid.append {t : Text} (h : Solid t) (cs : Text) : Solid (t ++ cs) := by
  obtain ⟨c, rest, rfl, hc⟩ := h
  exact ⟨c, rest ++ cs, rfl, hc⟩

theorem skipBlank_solid {cs : Text} (h : Solid cs) : skipBlank cs = cs := by
  obtain ⟨c, rest, rfl, hblank, -⟩ := h
  simp [skipBlank, hblank]

theorem skipBlank_space {cs : Text} (h : Solid cs) : skipBlank (' ' :: cs) = cs := by
  have hspace : isBlank ' ' = true := rfl
  rw [skipBlank, List.dropWhile_cons_of_pos hspace]
  exact skipBlank_solid h

theorem skipLines_of_skipBlank {cs rest : Text} (h : Solid rest) (hskip : skipBlank cs = rest)
    (fuel : Nat) : skipLines (fuel + 1) cs = rest := by
  obtain ⟨c, rest, rfl, -, hcomment, hfeed, hreturn⟩ := h
  simp [skipLines, hskip, skipComment, readNewline, hcomment, hfeed, hreturn]

theorem skipLines_solid {cs : Text} (h : Solid cs) : skipLines cs.length cs = cs := by
  have hskip := skipBlank_solid h
  obtain ⟨c, rest, rfl, -⟩ := id h
  exact skipLines_of_skipBlank h hskip rest.length

theorem skipLines_space {cs : Text} (h : Solid cs) :
    skipLines (' ' :: cs).length (' ' :: cs) = cs :=
  skipLines_of_skipBlank h (skipBlank_space h) cs.length

end Space

section Keys

/-- A key starts with a quote or with a character that needs none. -/
theorem key_starts (name : String) : ∃ c cs, key name = c :: cs ∧ (c = '"' ∨ isBare c = true) := by
  unfold key
  split
  · rename_i hbare
    obtain ⟨hne, hall⟩ := hbare
    cases hname : name.toList with
    | nil => exact absurd hname hne
    | cons c cs =>
      rw [hname, List.all_cons, Bool.and_eq_true] at hall
      exact ⟨c, cs, rfl, .inr hall.1⟩
  · exact ⟨'"', _, rfl, .inl rfl⟩

theorem isBare_ne {c d : Char} (hc : isBare c = true) (hd : isBare d = false) : c ≠ d := by
  rintro rfl
  rw [hc] at hd
  cases hd

theorem key_solid (name : String) : Solid (key name) := by
  obtain ⟨c, cs, hkey, hc⟩ := key_starts name
  refine ⟨c, cs, hkey, ?_⟩
  rcases hc with rfl | hc
  · decide
  · have hspace := isBare_ne (d := ' ') hc rfl
    have htab := isBare_ne (d := '\t') hc rfl
    exact ⟨by simp [isBlank, hspace, htab], isBare_ne hc rfl, isBare_ne hc rfl, isBare_ne hc rfl⟩

theorem readSimpleKey_key (name : String) (rest : Text) :
    readSimpleKey (key name ++ ' ' :: rest) = some (name, ' ' :: rest) := by
  unfold key
  split
  · rename_i hbare
    obtain ⟨hne, hall⟩ := hbare
    have hend : isBare ' ' = false := rfl
    have htake : (name.toList ++ ' ' :: rest).takeWhile isBare = name.toList := by
      rw [List.takeWhile_append_of_pos (by simpa using hall),
        List.takeWhile_cons_of_neg (by simp [hend]), List.append_nil]
    have hdrop : (name.toList ++ ' ' :: rest).dropWhile isBare = ' ' :: rest := by
      rw [List.dropWhile_append_of_pos (by simpa using hall),
        List.dropWhile_cons_of_neg (by simp [hend])]
    cases hname : name.toList with
    | nil => exact absurd hname hne
    | cons c cs =>
      rw [hname] at htake hdrop hall
      rw [List.all_cons, Bool.and_eq_true] at hall
      have hquote := isBare_ne (d := '"') hall.1 rfl
      have hmark := isBare_ne (d := '\'') hall.1 rfl
      rw [List.cons_append] at htake hdrop ⊢
      simp [readSimpleKey, hquote, hmark, htake, hdrop, ← hname]
  · simp [readSimpleKey, string, readBasic_text]

/-- A key of one part in front of its equals sign, whatever blank there is before it. -/
theorem readKey_key (name : String) {cs rest : Text}
    (hcs : skipBlank cs = key name ++ ' ' :: '=' :: rest) :
    readKey cs = some ({ parents := [], name }, '=' :: rest) := by
  have hequals : Solid ('=' :: rest) := ⟨'=', rest, rfl, by decide⟩
  have hparts : readKeyParts nestingLimit cs = some ([name], '=' :: rest) := by
    rw [nestingLimit, readKeyParts, hcs, readSimpleKey_key]
    simp [skipBlank_space hequals]
  rw [readKey, hparts]
  rfl

end Keys

end SwiftManifest.Toml
