import SwiftManifest.Datum.Basic

/-! Values made of texts, lists and objects only. Packages are written as such values; how deep
they nest decides whether a notation with a nesting limit can hold them. -/

namespace SwiftManifest

namespace Datum

/-- At most `n` lists and objects stand inside one another. -/
inductive Textual : Nat → Datum → Prop where
  | text {n : Nat} (value : String) : Textual n (.text value)
  | array {n : Nat} {elements : List Datum} :
      (∀ d ∈ elements, Textual n d) → Textual (n + 1) (.array elements)
  | object {n : Nat} {members : List (String × Datum)} :
      (∀ m ∈ members, Textual n m.2) → Textual (n + 1) (.object members)

theorem Textual.mono {n k : Nat} {d : Datum} (h : d.Textual n) (hk : n ≤ k) : d.Textual k := by
  induction h generalizing k with
  | text value => exact .text value
  | array _ ih =>
    obtain ⟨k, rfl⟩ := Nat.exists_eq_add_one_of_ne_zero (Nat.ne_zero_of_lt hk)
    refine .array ?_
    intro d hd
    exact ih d hd (by omega)
  | object _ ih =>
    obtain ⟨k, rfl⟩ := Nat.exists_eq_add_one_of_ne_zero (Nat.ne_zero_of_lt hk)
    refine .object ?_
    intro m hm
    exact ih m hm (by omega)

theorem Textual.ne_null {n : Nat} {d : Datum} (h : d.Textual n) : d ≠ .null := by
  cases h <;> simp

theorem allReadable_iff {elements : List Datum} :
    allReadable elements = true ↔ ∀ d ∈ elements, d.readable = true := by
  induction elements with
  | nil => simp [allReadable]
  | cons d ds ih => simp [allReadable, ih]

theorem membersReadable_iff {members : List (String × Datum)} :
    membersReadable members = true ↔ ∀ m ∈ members, m.2.readable = true := by
  induction members with
  | nil => simp [membersReadable]
  | cons m ms ih => rw [membersReadable, Bool.and_eq_true, ih, List.forall_mem_cons]

theorem Textual.readable {n : Nat} {d : Datum} (h : d.Textual n) : d.readable = true := by
  induction h with
  | text value => rfl
  | array _ ih => exact allReadable_iff.mpr ih
  | object _ ih => exact membersReadable_iff.mpr ih

end Datum

end SwiftManifest
