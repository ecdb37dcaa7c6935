import SwiftManifest.Requirement.Operator

/-! Events that loading, configuring and rendering report. A traced value is a value together with
the events reported on the way to it, in order. -/

namespace SwiftManifest

inductive Level where
  | debug | warn
  deriving DecidableEq, Repr

namespace Level

def label : Level → String
  | .debug => "DEBUG"
  | .warn => "WARN"

end Level

inductive Event where
  | renderingPackage (name : String) (platforms products dependencies targets : Nat)
  | loadedDescriptor (path name : String) (targets : Nat)
  | severalOperators (constraint : String) (operators : List RangeOperator)
  | ignoredCondition (dependency : String)
  deriving DecidableEq, Repr

inductive FieldValue where
  | text (value : String)
  | count (value : Nat)
  deriving DecidableEq, Repr

namespace Event

def level : Event → Level
  | .ignoredCondition _ => .warn
  | _ => .debug

def message : Event → String
  | .renderingPackage .. => "rendering package"
  | .loadedDescriptor .. => "loaded package descriptor"
  | .severalOperators constraint operators =>
    "version constraint `" ++ constraint ++ "` matched " ++ toString operators.length ++
      " operators: " ++ " ".intercalate (operators.map RangeOperator.symbol)
  | .ignoredCondition dependency =>
    "ignoring condition on literal dependency `" ++ dependency ++ "`"

def fields : Event → List (String × FieldValue)
  | .renderingPackage name platforms products dependencies targets =>
    [("name", .text name), ("platforms", .count platforms), ("products", .count products),
      ("dependencies", .count dependencies), ("targets", .count targets)]
  | .loadedDescriptor path name targets =>
    [("path", .text path), ("name", .text name), ("targets", .count targets)]
  | .severalOperators .. | .ignoredCondition _ => []

end Event

structure Traced (α : Type) where
  value : α
  events : List Event := []
  deriving DecidableEq, Repr

namespace Traced

def emit (e : Event) : Traced Unit := { value := (), events := [e] }

instance : Monad Traced where
  pure a := { value := a }
  bind x f :=
    let y := f x.value
    { value := y.value, events := x.events ++ y.events }

variable {α β : Type}

@[simp] theorem value_pure (a : α) : (pure a : Traced α).value = a := rfl

@[simp] theorem events_pure (a : α) : (pure a : Traced α).events = [] := rfl

@[simp] theorem value_bind (x : Traced α) (f : α → Traced β) :
    (x >>= f).value = (f x.value).value := rfl

@[simp] theorem events_bind (x : Traced α) (f : α → Traced β) :
    (x >>= f).events = x.events ++ (f x.value).events := rfl

@[simp] theorem events_emit (e : Event) : (emit e).events = [e] := rfl

end Traced

end SwiftManifest
