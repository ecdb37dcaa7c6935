import SwiftManifest.Expression.Argument
import SwiftManifest.Proofs.Expression.Reading

/-! Forms of argument lists. Every optional argument has a label of its own, so whether it is there
and what it is can be told from the list. -/

namespace SwiftManifest

open Expression (form forms forms_eq_map)

section Maps

variable {α β γ : Type} {F : α → β} {G : α → γ}

theorem map_eq_of_map_eq (h : ∀ a b, F a = F b → G a = G b) {as bs : List α}
    (hmap : as.map F = bs.map F) : as.map G = bs.map G := by
  induction as generalizing bs with
  | nil => simp_all
  | cons a as ih =>
    cases bs with
    | nil => simp at hmap
    | cons b bs =>
      obtain ⟨hhead, htail⟩ := List.cons.inj hmap
      rw [List.map_cons, List.map_cons, h a b hhead, ih htail]

theorem option_map_eq_of_map_eq (h : ∀ a b, F a = F b → G a = G b) {a b : Option α}
    (hmap : a.map F = b.map F) : a.map G = b.map G := by
  cases a with
  | none => cases b <;> simp_all
  | some a =>
    cases b with
    | none => simp at hmap
    | some b => rw [Option.map_some, Option.map_some, h a b (Option.some.inj hmap)]

end Maps

namespace Form

def literal (value : String) : Form := .atom [.literal value.toList]

def symbol (name : String) : Form := .atom (marks ('.' :: name.toList))

def absent : Form := .atom (marks "nil".toList)

/-- An argument that is there or not. -/
def argument (label : String) (value : Option Form) : List Form :=
  (value.map (Form.labeled label)).toList

/-- A list that is not written when it is empty. -/
def unlessEmpty : List Form → Option Form
  | [] => none
  | fs => some (.list fs)

def Lacks (label : String) (fs : List Form) : Prop :=
  ∀ value, Form.labeled label value ∉ fs

@[simp] theorem literal_inj {value value' : String} :
    literal value = literal value' ↔ value = value' := by
  simp [literal, String.toList_inj]

@[simp] theorem symbol_inj {name name' : String} : symbol name = symbol name' ↔ name = name' := by
  constructor
  · intro h
    have hname := marks_injective (Form.atom.inj h)
    exact String.toList_inj.mp (List.cons.inj hname).2
  · intro h
    rw [h]

@[simp] theorem literal_ne_symbol {value name : String} : literal value ≠ symbol name := by
  simp [literal, symbol]

@[simp] theorem symbol_ne_literal {value name : String} : symbol name ≠ literal value :=
  literal_ne_symbol.symm

@[simp] theorem literal_ne_absent {value : String} : literal value ≠ absent := by
  simp [literal, absent, marks]

@[simp] theorem absent_ne_literal {value : String} : absent ≠ literal value :=
  literal_ne_absent.symm

@[simp] theorem literal_ne_call {value keyword : String} {arguments : List Form} :
    literal value ≠ .call keyword arguments := Form.noConfusion

@[simp] theorem call_ne_literal {value keyword : String} {arguments : List Form} :
    .call keyword arguments ≠ literal value := Form.noConfusion

@[simp] theorem symbol_ne_call {name keyword : String} {arguments : List Form} :
    symbol name ≠ .call keyword arguments := Form.noConfusion

@[simp] theorem call_ne_symbol {name keyword : String} {arguments : List Form} :
    .call keyword arguments ≠ symbol name := Form.noConfusion

@[simp] theorem map_literal_inj {values values' : List String} :
    values.map literal = values'.map literal ↔ values = values' :=
  List.map_inj_right fun _ _ => literal_inj.mp

@[simp] theorem option_map_literal_inj {value value' : Option String} :
    value.map literal = value'.map literal ↔ value = value' :=
  Option.map_inj_right fun _ _ => literal_inj.mp

@[simp] theorem unlessEmpty_inj {fs gs : List Form} :
    unlessEmpty fs = unlessEmpty gs ↔ fs = gs := by
  cases fs <;> cases gs <;> simp [unlessEmpty]

variable {label label' : String}

@[simp] theorem lacks_nil : Lacks label [] := by simp [Lacks]

@[simp] theorem lacks_cons {f : Form} {fs : List Form} :
    Lacks label (f :: fs) ↔ (∀ value, f ≠ .labeled label value) ∧ Lacks label fs := by
  simp [Lacks, forall_and, eq_comm]

@[simp] theorem lacks_append {fs gs : List Form} :
    Lacks label (fs ++ gs) ↔ Lacks label fs ∧ Lacks label gs := by
  simp [Lacks, forall_and]

@[simp] theorem lacks_argument (h : label ≠ label') (value : Option Form) :
    Lacks label (argument label' value) := by
  cases value <;> simp [Lacks, argument, h]

@[simp] theorem argument_append_inj {value value' : Option Form} {fs gs : List Form}
    (hfs : Lacks label fs) (hgs : Lacks label gs) :
    argument label value ++ fs = argument label value' ++ gs ↔ value = value' ∧ fs = gs := by
  cases value with
  | none =>
    cases value' with
    | none => simp [argument]
    | some v =>
      have hne : fs ≠ .labeled label v :: gs := by
        rintro rfl
        exact hfs v List.mem_cons_self
      simpa [argument] using hne
  | some v =>
    cases value' with
    | none =>
      have hne : .labeled label v :: fs ≠ gs := by
        rintro rfl
        exact hgs v List.mem_cons_self
      simpa [argument] using hne
    | some v' => simp [argument]

@[simp] theorem argument_inj {value value' : Option Form} :
    argument label value = argument label value' ↔ value = value' := by
  cases value <;> cases value' <;> simp [argument]

end Form

section Arguments

variable {α : Type} [Expressible α] (label : String)

@[simp] theorem form_literal (value : String) :
    (Expression.literal value).form = .literal value := rfl

@[simp] theorem form_symbol (name : String) :
    (Expression.symbol name).form = .symbol name := rfl

@[simp] theorem form_absent : Expression.absent.form = .absent := rfl

@[simp] theorem form_strings (values : List String) :
    (Expression.strings values).form = .list (values.map .literal) := rfl

@[simp] theorem form_literalArgument (value : String) :
    (literalArgument label value).form = .labeled label (.literal value) := rfl

@[simp] theorem forms_optionalLiteral (value : Option String) :
    forms (optionalLiteral label value) = Form.argument label (value.map .literal) := by
  cases value <;> rfl

@[simp] theorem forms_optionalStrings (values : List String) :
    forms (optionalStrings label values) =
      Form.argument label (Form.unlessEmpty (values.map .literal)) := by
  cases values <;> rfl

@[simp] theorem forms_optionalNode (value : Option α) :
    forms (optionalNode label value) =
      Form.argument label (value.map fun a => (expression a).form) := by
  cases value <;> rfl

@[simp] theorem form_list (as : List α) :
    (expression as).form = .list (as.map fun a => (expression a).form) := by
  simp [expression, form, forms_eq_map, Function.comp_def]

@[simp] theorem forms_optionalList (as : List α) :
    forms (optionalList label as) =
      Form.argument label (Form.unlessEmpty (as.map fun a => (expression a).form)) := by
  cases as with
  | nil => rfl
  | cons a as =>
    have hlist := form_list (a :: as)
    simp [optionalList, forms, form, hlist, Form.argument, Form.unlessEmpty]

end Arguments

end SwiftManifest
