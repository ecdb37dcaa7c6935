import SwiftManifest.Expression.Basic

/-! Configuration calls as data. Running a list of calls changes a state; the journal of the run
says what the calls returned on the way. A node enters a list only through the call that makes it:
pushing a finished node, extending a list by several and assigning to a field are no calls here. -/

namespace SwiftManifest

/-- Something that a call shows: the text of the node it returns, or a part that was looked at. -/
inductive Entry where
  | node (text : Text)
  | target (keyword : String) (name : Option String) (text : Text)
  | identity (name path : Option String)
  | layout (exclude sources : List String) (dependencies : Nat)
  | sizes (counts : List Nat)
  deriving DecidableEq, Repr

structure Journal where
  entries : List Entry := []
  events : List Event := []
  deriving DecidableEq, Repr

namespace Journal

instance : Append Journal where
  append a b := { entries := a.entries ++ b.entries, events := a.events ++ b.events }

/-- A node is shown by its text, and writing it is reported. -/
def ofNode {α : Type} [Expressible α] (a : α) : Journal :=
  { entries := [.node (renderTraced a).value], events := (renderTraced a).events }

end Journal

/-- Calls of type `κ` on states of type `σ`. -/
class Call (κ σ : Type) where
  apply : κ → σ → σ
  journal : κ → σ → Journal := fun _ _ => {}

section Running

variable {κ σ : Type} [Call κ σ]

def run (calls : List κ) (s : σ) : σ := calls.foldl (fun s call => Call.apply call s) s

def journal : List κ → σ → Journal
  | [], _ => {}
  | call :: calls, s => Call.journal call s ++ journal calls (Call.apply call s)

end Running

/-- A call that makes a node of type `α`. -/
class Start (β : Type) (α : outParam Type) where
  node : β → α
  journal : β → Journal := fun _ => {}
  shown : α → Journal

/-- A call that appends a node to a list, and the calls on the handle that it returns. -/
structure Addition (β μ : Type) where
  start : β
  changes : List μ := []
  deriving DecidableEq, Repr

/-- Changes the node that was appended last. -/
def changeLast {α : Type} (f : α → α) : List α → List α
  | [] => []
  | [a] => [f a]
  | a :: b :: as => a :: changeLast f (b :: as)

instance {σ : Type} : Call Empty σ where
  apply call _ := nomatch call

instance {α β μ : Type} [Start β α] [Call μ α] : Call (Addition β μ) (List α) where
  apply addition nodes :=
    addition.changes.foldl (fun nodes change => changeLast (Call.apply change) nodes)
      (nodes ++ [Start.node addition.start])
  journal addition _ :=
    Start.journal addition.start ++
      journal addition.changes (Start.node addition.start) ++
      Start.shown β (run addition.changes (Start.node addition.start))

end SwiftManifest
