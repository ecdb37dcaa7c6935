/-! Enumerations whose values are written as symbols. No two values of one enumeration share a
symbol, so a symbol names at most one value. -/

namespace SwiftManifest

class Symbolic (α : Type) where
  kind : String
  all : List α
  symbol : α → String
  mem_all : ∀ a : α, a ∈ all
  symbols_nodup : (all.map symbol).Nodup

structure UnknownSymbol where
  kind : String
  value : String
  expected : String
  deriving DecidableEq, Repr

namespace UnknownSymbol

def message (e : UnknownSymbol) : String :=
  "invalid " ++ e.kind ++ " `" ++ e.value ++ "`, valid values: " ++ e.expected

end UnknownSymbol

namespace Symbolic

variable {α : Type} [Symbolic α]

def ofSymbol? (text : String) : Option α :=
  (all : List α).find? fun a => symbol a = text

/-- The place of a value in the order of its enumeration. -/
def index (a : α) : Nat :=
  ((all : List α).map symbol).idxOf (symbol a)

variable (α) in
def unknown (text : String) : UnknownSymbol :=
  { kind := kind α, value := text, expected := ", ".intercalate ((all : List α).map symbol) }

def parse (text : String) : Except UnknownSymbol α :=
  match ofSymbol? text with
  | some a => .ok a
  | none => .error (unknown α text)

end Symbolic

end SwiftManifest
