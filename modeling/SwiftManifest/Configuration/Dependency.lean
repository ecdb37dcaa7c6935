import SwiftManifest.Configuration.Platform
import SwiftManifest.Expression.Dependency

/-! Configuring package and target dependencies. -/

namespace SwiftManifest

structure ConstraintCall where
  constraint : String
  deriving DecidableEq, Repr

instance : Call ConstraintCall PackageDependency where
  apply call d := { d with version := some call.constraint }

instance : Start Location PackageDependency where
  node location := { location }
  shown := Journal.ofNode

abbrev PackageDependencyAddition := Addition Location ConstraintCall

/-- Restricts a dependency to platforms configured from scratch. -/
structure PlatformRestriction where
  additions : List PlatformAddition
  deriving DecidableEq, Repr

namespace TargetDependency

/-- Installs a condition, or replaces the platforms of the one there is. -/
def restricted (platforms : List SupportedPlatform) : Option Condition → Option Condition
  | none => some { platforms := some platforms }
  | some c => some { c with platforms := some platforms }

/-- A literal dependency stays as it is. -/
def restrict (platforms : List SupportedPlatform) : TargetDependency → TargetDependency
  | .product name package condition => .product name package (restricted platforms condition)
  | .target name condition => .target name (restricted platforms condition)
  | .byName name condition => .byName name (restricted platforms condition)
  | .literal name => .literal name

/-- Restricting a literal dependency is ignored with a warning. -/
def restrictionEvents : TargetDependency → List Event
  | .literal name => [.ignoredCondition name]
  | _ => []

end TargetDependency

instance : Call PlatformRestriction TargetDependency where
  apply restriction d := d.restrict (run restriction.additions [])
  journal restriction d :=
    journal restriction.additions ([] : List SupportedPlatform) ++
      { events := d.restrictionEvents }

inductive TargetDependencyStart where
  | product (name : String)
  | productIn (name package : String)
  | target (name : String)
  | byName (name : String)
  | literal (name : String)
  deriving DecidableEq, Repr

instance : Start TargetDependencyStart TargetDependency where
  node
    | .product name => .product name none none
    | .productIn name package => .product name (some package) none
    | .target name => .target name none
    | .byName name => .byName name none
    | .literal name => .literal name
  shown := Journal.ofNode

abbrev TargetDependencyAddition := Addition TargetDependencyStart PlatformRestriction

end SwiftManifest
