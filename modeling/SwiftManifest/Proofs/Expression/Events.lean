import SwiftManifest.Expression.Argument

/-! The events of writing an expression. They are those of its parts from left to right, so an
expression without reports and without version constraints in it is silent. -/

namespace SwiftManifest

namespace Expression

def events (e : Expression) : List Event := e.printTraced.events

theorem events_printAllTraced (es : List Expression) :
    (printAllTraced es).events = es.flatMap events := by
  induction es with
  | nil => rfl
  | cons e es ih => simp [printAllTraced, ih, events]

@[simp] theorem events_literal (value : String) : (literal value).events = [] := rfl

@[simp] theorem events_symbol (name : String) : (symbol name).events = [] := rfl

@[simp] theorem events_strings (values : List String) : (strings values).events = [] := rfl

@[simp] theorem events_absent : absent.events = [] := rfl

@[simp] theorem events_requirement (constraint : String) :
    (requirement constraint).events = (tracedRequirement constraint).events := rfl

@[simp] theorem events_list (entries : List Expression) :
    (list entries).events = entries.flatMap events := by
  simp [events, printTraced, events_printAllTraced]

@[simp] theorem events_call (keyword : String) (arguments : List Expression) :
    (call keyword arguments).events = arguments.flatMap events := by
  simp [events, printTraced, events_printAllTraced]

@[simp] theorem events_inlineCall (keyword : String) (arguments : List Expression) :
    (inlineCall keyword arguments).events = arguments.flatMap events := by
  simp [events, printTraced, events_printAllTraced]

@[simp] theorem events_labeled (label : String) (value : Expression) :
    (labeled label value).events = value.events := by
  simp [events, printTraced]

@[simp] theorem events_reported (event : Event) (value : Expression) :
    (reported event value).events = event :: value.events := rfl

end Expression

section Nodes

open Expression (events)

theorem events_renderTraced {α : Type} [Expressible α] (a : α) :
    (renderTraced a).events = (expression a).events := rfl

/-- Nodes that are written without any report. -/
class Silent (α : Type) [Expressible α] : Prop where
  events_eq : ∀ a : α, (renderTraced a).events = []

variable {α : Type} [Expressible α]

@[simp] theorem events_expression [Silent α] (a : α) : (expression a).events = [] :=
  Silent.events_eq a

theorem events_expression_list (as : List α) :
    (expression as).events = as.flatMap fun a => (expression a).events := by
  change (Expression.list (as.map expression)).events = _
  rw [Expression.events_list, List.flatMap_map]

instance [Silent α] : Silent (List α) where
  events_eq as := by
    rw [events_renderTraced, events_expression_list]
    simp

instance {β : Type} [Symbolic β] : Silent β where
  events_eq _ := rfl

variable {label : String}

@[simp] theorem events_literalArgument (value : String) :
    (literalArgument label value).events = [] := by
  simp [literalArgument]

@[simp] theorem events_optionalLiteral (value : Option String) :
    (optionalLiteral label value).flatMap events = [] := by
  cases value <;> simp [optionalLiteral]

@[simp] theorem events_optionalStrings (values : List String) :
    (optionalStrings label values).flatMap events = [] := by
  cases values <;> simp [optionalStrings]

@[simp] theorem events_optionalNode [Silent α] (value : Option α) :
    (optionalNode label value).flatMap events = [] := by
  cases value <;> simp [optionalNode]

theorem events_optionalList (label : String) (as : List α) :
    (optionalList label as).flatMap events = as.flatMap fun a => (expression a).events := by
  cases as with
  | nil => rfl
  | cons a as =>
    simp only [optionalList, List.flatMap_singleton, Expression.events_labeled,
      events_expression_list]

@[simp] theorem events_optionalList_silent [Silent α] (as : List α) :
    (optionalList label as).flatMap events = [] := by
  simp [events_optionalList]

end Nodes

end SwiftManifest
