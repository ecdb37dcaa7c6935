import SwiftManifest.Symbolic
import Mathlib.Data.List.Nodup

/-! A symbol names at most one value of its enumeration. -/

namespace SwiftManifest

namespace Symbolic

variable {α : Type} [Symbolic α]

theorem symbol_injective {a b : α} (h : symbol a = symbol b) : a = b :=
  List.inj_on_of_nodup_map (symbols_nodup (α := α)) (mem_all a) (mem_all b) h

theorem ofSymbol?_symbol (a : α) : ofSymbol? (symbol a) = some a := by
  unfold ofSymbol?
  cases h : (all : List α).find? fun b => symbol b = symbol a with
  | none => simpa using List.find?_eq_none.mp h a (mem_all a)
  | some b =>
    have hb : symbol b = symbol a := by simpa using List.find?_some h
    rw [symbol_injective hb]

end Symbolic

end SwiftManifest
