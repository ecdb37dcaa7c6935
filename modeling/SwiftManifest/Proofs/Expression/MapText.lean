import SwiftManifest.Proofs.Expression.WellFormed

/-! Expressions with other strings in them. Reports do not show in the text and are dropped. -/

namespace SwiftManifest

namespace Expression

mutual
/-- Every literal replaced by `f` and every version constraint by `g`. -/
def mapText (f g : String → String) : Expression → Expression
  | .literal value => .literal (f value)
  | .symbol name => .symbol name
  | .strings values => .strings (values.map f)
  | .requirement constraint => .requirement (g constraint)
  | .absent => .absent
  | .list entries => .list (mapTextAll f g entries)
  | .call keyword arguments => .call keyword (mapTextAll f g arguments)
  | .inlineCall keyword arguments => .inlineCall keyword (mapTextAll f g arguments)
  | .labeled label value => .labeled label (mapText f g value)
  | .reported _ value => mapText f g value

def mapTextAll (f g : String → String) : List Expression → List Expression
  | [] => []
  | e :: es => mapText f g e :: mapTextAll f g es
end

variable {f g : String → String}

theorem mapTextAll_eq_map (es : List Expression) : mapTextAll f g es = es.map (mapText f g) := by
  induction es with
  | nil => rfl
  | cons e es ih => simp [mapTextAll, ih]

@[simp] theorem mapTextAll_nil : mapTextAll f g [] = [] := rfl

@[simp] theorem mapTextAll_cons (e : Expression) (es : List Expression) :
    mapTextAll f g (e :: es) = mapText f g e :: mapTextAll f g es := rfl

@[simp] theorem mapTextAll_eq_nil_iff {es : List Expression} :
    mapTextAll f g es = [] ↔ es = [] := by
  simp [mapTextAll_eq_map]

@[simp] theorem mapTextAll_append (es es' : List Expression) :
    mapTextAll f g (es ++ es') = mapTextAll f g es ++ mapTextAll f g es' := by
  simp [mapTextAll_eq_map]

theorem printAll_mapTextAll {es : List Expression}
    (h : ∀ e ∈ es, (e.mapText id id).print = e.print) :
    printAll (mapTextAll id id es) = printAll es := by
  rw [printAll_eq_map, printAll_eq_map, mapTextAll_eq_map, List.map_map]
  exact List.map_congr_left h

theorem print_mapText_id (e : Expression) : (e.mapText id id).print = e.print := by
  induction e with
  | list entries ih => rw [mapText, print, print, printAll_mapTextAll ih]
  | call keyword arguments ih => rw [mapText, print, print, printAll_mapTextAll ih]
  | inlineCall keyword arguments ih => rw [mapText, print, print, printAll_mapTextAll ih]
  | labeled label value ih => rw [mapText, print, print, ih]
  | reported event value ih => rw [mapText, print, ih]
  | strings values => rw [mapText, List.map_id]
  | _ => rfl

end Expression

end SwiftManifest
