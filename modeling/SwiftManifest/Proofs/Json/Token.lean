import SwiftManifest.Json.Printer
import SwiftManifest.Json.Reader

/-! JSON strings read back: written characters become pieces again, and pieces the string. -/

namespace SwiftManifest.Json

/-- The piece that a written character is read as. -/
def pieceOf (c : Char) : Piece :=
  if c.toNat < 0x20 ∧ c ∉ ['\x08', '\x0c', '\n', '\r', '\t'] then .unit c.toNat else .char c

theorem unitOf?_control {n : Nat} (h : n < 0x20) :
    unitOf? ['0', '0', hexDigit (n / 16), hexDigit (n % 16)] = some n := by
  have hall : ∀ m : Fin 0x20,
      unitOf? ['0', '0', hexDigit (m.val / 16), hexDigit (m.val % 16)] = some m.val := by
    decide
  exact hall ⟨n, h⟩

theorem readPieces_escaped (c : Char) (cs : Text) :
    readPieces (escaped c ++ cs) =
      (readPieces cs).map fun r => (pieceOf c :: r.1, r.2) := by
  have short : ∀ e d : Char, e ≠ 'u' → shortEscape? e = some d →
      readPieces ('\\' :: e :: cs) = (readPieces cs).map fun r => (.char d :: r.1, r.2) := by
    intro e d he hd
    cases h : readPieces cs <;> simp [readPieces, he, hd, h]
  unfold escaped
  split
  · exact short '"' '"' (by decide) rfl
  · exact short '\\' '\\' (by decide) rfl
  · exact short 'b' '\x08' (by decide) rfl
  · exact short 'f' '\x0c' (by decide) rfl
  · exact short 'n' '\n' (by decide) rfl
  · exact short 'r' '\r' (by decide) rfl
  · exact short 't' '\t' (by decide) rfl
  · rename_i hquote hslash _ _ _ _ _
    split
    · rename_i hc
      cases h : readPieces cs <;> simp_all [readPieces, unitOf?_control hc, pieceOf]
    · rename_i hc
      cases h : readPieces cs <;> simp_all [readPieces, pieceOf]

theorem assemble_control {n : Nat} (h : n < 0x20) (ps : List Piece) :
    assemble (.unit n :: ps) = (assemble ps).map (Char.ofNat n :: ·) := by
  have hhigh : isHighSurrogate n = false := by
    simp only [isHighSurrogate, Bool.and_eq_false_imp, decide_eq_true_eq]
    omega
  have hlow : isLowSurrogate n = false := by
    simp only [isLowSurrogate, Bool.and_eq_false_imp, decide_eq_true_eq]
    omega
  cases ps with
  | nil => simp [assemble, hhigh, hlow]
  | cons p ps => cases p <;> simp [assemble, hhigh, hlow]

theorem assemble_pieces (value : Text) : assemble (value.map pieceOf) = some value := by
  induction value with
  | nil => rfl
  | cons c cs ih =>
    simp only [List.map_cons, pieceOf]
    split
    · rename_i hc
      simp [assemble_control hc.1, ih, Char.ofNat_toNat]
    · simp [assemble, ih]

theorem readPieces_text (value rest : Text) :
    readPieces (value.flatMap escaped ++ '"' :: rest) = some (value.map pieceOf, rest) := by
  induction value with
  | nil => simp [readPieces]
  | cons c cs ih => simp [List.append_assoc, readPieces_escaped, ih]

theorem textOf_pieces (value : String) :
    textOf (value.toList.map pieceOf) = .text value := by
  simp [textOf, assemble_pieces]

/-- Made of blank characters only. -/
def Blank (t : Text) : Prop := ∀ c ∈ t, isSpace c = true

theorem blank_nil : Blank [] := by
  simp [Blank]

theorem skipSpace_append {gap : Text} (h : Blank gap) (cs : Text) :
    skipSpace (gap ++ cs) = skipSpace cs := by
  simp only [skipSpace]
  rw [List.dropWhile_append_of_pos h]

theorem readValue_append {gap : Text} (h : Blank gap) (room : Nat) (cs : Text) :
    readValue room (gap ++ cs) = readValue room cs := by
  cases room <;> simp only [readValue, skipSpace_append h]

theorem readName_append {gap : Text} (h : Blank gap) (cs : Text) :
    readName (gap ++ cs) = readName cs := by
  simp only [readName, skipSpace_append h]

theorem readName_string (name : String) (cs : Text) :
    readName (string name ++ ':' :: cs) = some (name.toList.map pieceOf, cs) := by
  simp [readName, string, skipSpace, isSpace, readPieces_text]

theorem readValue_string (room : Nat) (value : String) (rest : Text) :
    readValue room (string value ++ rest) = some (.text value, rest) := by
  cases room <;>
    simp [readValue, string, skipSpace, isSpace, readScalar, readPieces_text, textOf_pieces]

end SwiftManifest.Json
