import SwiftManifest.Model.Platform

/-! Dependencies of a package on other packages, and of a target on products and targets. -/

namespace SwiftManifest

inductive Location where
  | path (value : String)
  | url (value : String)
  deriving DecidableEq, Repr

structure PackageDependency where
  location : Location
  version : Option String := none
  deriving DecidableEq, Repr

namespace PackageDependency

def isPath (d : PackageDependency) : Bool :=
  match d.location with
  | .path _ => true
  | .url _ => false

end PackageDependency

/-- A literal dependency is a bare name and never conditional. -/
inductive TargetDependency where
  | product (name : String) (package : Option String) (condition : Option Condition)
  | target (name : String) (condition : Option Condition)
  | byName (name : String) (condition : Option Condition)
  | literal (name : String)
  deriving DecidableEq, Repr

namespace TargetDependency

def name : TargetDependency → String
  | .product name _ _ | .target name _ | .byName name _ | .literal name => name

def condition : TargetDependency → Option Condition
  | .product _ _ condition | .target _ condition | .byName _ condition => condition
  | .literal _ => none

end TargetDependency

end SwiftManifest
