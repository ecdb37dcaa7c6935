import SwiftManifest.Expression.Basic

/-! Induction over expressions, and the expressions whose names are made of word characters, as all
those of a package are whose version symbols are. -/

namespace SwiftManifest

namespace Expression

section Induction

variable {motive : Expression → Prop}
  (literal : ∀ value, motive (.literal value))
  (symbol : ∀ name, motive (.symbol name))
  (strings : ∀ values, motive (.strings values))
  (requirement : ∀ constraint, motive (.requirement constraint))
  (absent : motive .absent)
  (list : ∀ entries, (∀ e ∈ entries, motive e) → motive (.list entries))
  (call : ∀ keyword arguments, (∀ e ∈ arguments, motive e) → motive (.call keyword arguments))
  (inlineCall : ∀ keyword arguments, (∀ e ∈ arguments, motive e) →
    motive (.inlineCall keyword arguments))
  (labeled : ∀ label value, motive value → motive (.labeled label value))
  (reported : ∀ event value, motive value → motive (.reported event value))

include literal symbol strings requirement absent list call inlineCall labeled reported

/-- Induction in which a list of expressions comes with the claim for each of its members. -/
@[induction_eliminator]
theorem induct (e : Expression) : motive e :=
  @Expression.rec motive (fun es => ∀ e ∈ es, motive e) literal symbol strings requirement absent
    list call inlineCall labeled reported (by simp) (fun _ _ he hes => by simpa using ⟨he, hes⟩) e

end Induction

theorem printAll_eq_map (es : List Expression) : printAll es = es.map print := by
  induction es with
  | nil => rfl
  | cons e es ih => simp [printAll, ih]

end Expression

/-- ASCII letters, digits and underscores. -/
def wordChar (c : Char) : Prop := c.isAlphanum ∨ c = '_'

instance (c : Char) : Decidable (wordChar c) :=
  inferInstanceAs (Decidable (_ ∨ _))

def nameChar (c : Char) : Prop := wordChar c ∨ c = '.'

instance (c : Char) : Decidable (nameChar c) :=
  inferInstanceAs (Decidable (_ ∨ _))

theorem nameChar.not_mem {c : Char} (hc : nameChar c) {others : List Char}
    (h : ∀ d ∈ others, ¬ nameChar d) : c ∉ others :=
  fun hmem => h c hmem hc

structure IsKeyword (keyword : String) : Prop where
  ne_nil : keyword.toList ≠ []
  chars : ∀ c ∈ keyword.toList, nameChar c

instance (keyword : String) : Decidable (IsKeyword keyword) :=
  decidable_of_iff (keyword.toList ≠ [] ∧ ∀ c ∈ keyword.toList, nameChar c)
    ⟨fun h => ⟨h.1, h.2⟩, fun h => ⟨h.ne_nil, h.chars⟩⟩

theorem nameChar_of_mem_symbol {name : String} (h : ∀ c ∈ name.toList, wordChar c) :
    ∀ c ∈ '.' :: name.toList, nameChar c :=
  List.forall_mem_cons.mpr ⟨.inr rfl, fun c hc => .inl (h c hc)⟩

namespace Expression

mutual
/-- Every name is one by its characters; a call on several lines has arguments unless `bare`. -/
def WellFormed (bare : Prop) : Expression → Prop
  | .symbol name => ∀ c ∈ name.toList, wordChar c
  | .list entries => AllWellFormed bare entries
  | .call keyword arguments =>
    IsKeyword keyword ∧ (arguments = [] → bare) ∧ AllWellFormed bare arguments
  | .inlineCall keyword arguments => IsKeyword keyword ∧ AllWellFormed bare arguments
  | .labeled label value => IsKeyword label ∧ WellFormed bare value
  | .reported _ value => WellFormed bare value
  | .literal _ | .strings _ | .requirement _ | .absent => True

def AllWellFormed (bare : Prop) : List Expression → Prop
  | [] => True
  | e :: es => WellFormed bare e ∧ AllWellFormed bare es
end

theorem allWellFormed_iff {bare : Prop} {es : List Expression} :
    AllWellFormed bare es ↔ ∀ e ∈ es, WellFormed bare e := by
  induction es with
  | nil => simp [AllWellFormed]
  | cons e es ih => simp [AllWellFormed, ih]

variable {bare : Prop}

@[simp] theorem allWellFormed_nil : AllWellFormed bare [] := trivial

@[simp] theorem allWellFormed_cons (e : Expression) (es : List Expression) :
    AllWellFormed bare (e :: es) ↔ e.WellFormed bare ∧ AllWellFormed bare es := Iff.rfl

@[simp] theorem allWellFormed_append (es es' : List Expression) :
    AllWellFormed bare (es ++ es') ↔ AllWellFormed bare es ∧ AllWellFormed bare es' := by
  simp [allWellFormed_iff, or_imp, forall_and]

end Expression

end SwiftManifest
