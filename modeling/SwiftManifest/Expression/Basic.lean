import SwiftManifest.Text.Call
import SwiftManifest.Requirement.Compile
import SwiftManifest.Symbolic

/-! The expressions that a manifest is made of, and how they are written. Strings enter the text
only as literals and in requirements; everything else is fixed by the shape of the tree, up to the
names of symbols. -/

namespace SwiftManifest

/-- Writing a `reported` expression is itself an event; its text is that of the value. -/
inductive Expression where
  | literal (value : String)
  | symbol (name : String)
  | strings (values : List String)
  | requirement (constraint : String)
  | absent
  | list (entries : List Expression)
  | call (keyword : String) (arguments : List Expression)
  | inlineCall (keyword : String) (arguments : List Expression)
  | labeled (label : String) (value : Expression)
  | reported (event : Event) (value : Expression)
  deriving Repr

namespace Expression

mutual
def print : Expression → Text
  | .literal value => quoted value.toList
  | .symbol name => symbolText name.toList
  | .strings values => quotedList values
  | .requirement constraint => SwiftManifest.requirement constraint.toList
  | .absent => "nil".toList
  | .list entries => bracketedList (printAll entries)
  | .call keyword arguments => callText keyword.toList (printAll arguments)
  | .inlineCall keyword arguments => inlineCallText keyword.toList (printAll arguments)
  | .labeled label value => labeledText label.toList (print value)
  | .reported _ value => print value

def printAll : List Expression → List Text
  | [] => []
  | e :: es => print e :: printAll es
end

mutual
/-- The text of an expression with the events of writing it, from left to right. -/
def printTraced : Expression → Traced Text
  | .requirement constraint => tracedRequirement constraint
  | .list entries => do return bracketedList (← printAllTraced entries)
  | .call keyword arguments => do return callText keyword.toList (← printAllTraced arguments)
  | .inlineCall keyword arguments =>
    do return inlineCallText keyword.toList (← printAllTraced arguments)
  | .labeled label value => do return labeledText label.toList (← printTraced value)
  | .reported event value => do
    Traced.emit event
    printTraced value
  | e => pure (print e)

def printAllTraced : List Expression → Traced (List Text)
  | [] => pure []
  | e :: es => do return (← printTraced e) :: (← printAllTraced es)
end

mutual
/-- Whether events are recorded makes no difference to the text. -/
theorem value_printTraced : (e : Expression) → e.printTraced.value = e.print
  | .literal _ | .symbol _ | .strings _ | .absent => by simp [printTraced]
  | .requirement _ => by simp [printTraced, print, tracedRequirement]
  | .list entries => by simp [printTraced, print, value_printAllTraced entries]
  | .call _ arguments => by simp [printTraced, print, value_printAllTraced arguments]
  | .inlineCall _ arguments => by simp [printTraced, print, value_printAllTraced arguments]
  | .labeled _ value => by simp [printTraced, print, value_printTraced value]
  | .reported _ value => by simp [printTraced, print, value_printTraced value]

theorem value_printAllTraced : (es : List Expression) → (printAllTraced es).value = printAll es
  | [] => by simp [printAllTraced, printAll]
  | e :: es => by
    simp [printAllTraced, printAll, value_printTraced e, value_printAllTraced es]
end

end Expression

/-- Values with a manifest expression. -/
class Expressible (α : Type) where
  expression : α → Expression

export Expressible (expression)

instance {α : Type} [Expressible α] : Expressible (List α) where
  expression xs := .list (xs.map expression)

instance {α : Type} [Symbolic α] : Expressible α where
  expression a := .symbol (Symbolic.symbol a)

variable {α : Type} [Expressible α]

def render (a : α) : Text := (expression a).print

def renderTraced (a : α) : Traced Text := (expression a).printTraced

theorem value_renderTraced (a : α) : (renderTraced a).value = render a :=
  Expression.value_printTraced _

end SwiftManifest
