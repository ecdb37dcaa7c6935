import SwiftManifest.Expression.Basic

/-! Arguments that a call has only when there is something to say: each of these is one labelled
argument or none. -/

namespace SwiftManifest

variable {α : Type} [Expressible α]

def literalArgument (label value : String) : Expression :=
  .labeled label (.literal value)

def optionalLiteral (label : String) : Option String → List Expression
  | none => []
  | some value => [literalArgument label value]

def optionalStrings (label : String) : List String → List Expression
  | [] => []
  | values => [.labeled label (.strings values)]

def optionalNode (label : String) : Option α → List Expression
  | none => []
  | some a => [.labeled label (expression a)]

def optionalList (label : String) : List α → List Expression
  | [] => []
  | as => [.labeled label (expression as)]

end SwiftManifest
