import SwiftManifest.Expression.Platform
import SwiftManifest.Model.Dependency

/-! Expressions of package and target dependencies. -/

namespace SwiftManifest

namespace Location

def argument : Location → Expression
  | .path value => literalArgument "path" value
  | .url value => literalArgument "url" value

end Location

namespace PackageDependency

def expression (d : PackageDependency) : Expression :=
  .call ".package" (d.location.argument :: (d.version.map Expression.requirement).toList)

instance : Expressible PackageDependency := ⟨expression⟩

/-- The requirement expression of a dependency that has a version constraint. -/
def requirement (d : PackageDependency) : Option Text :=
  d.version.map fun constraint => SwiftManifest.requirement constraint.toList

end PackageDependency

namespace TargetDependency

def expression : TargetDependency → Expression
  | .product name package condition =>
    .call ".product" (literalArgument "name" name ::
      optionalLiteral "package" package ++ optionalNode "condition" condition)
  | .target name condition =>
    .call ".target" (literalArgument "name" name :: optionalNode "condition" condition)
  | .byName name condition =>
    .call ".byName" (literalArgument "name" name :: optionalNode "condition" condition)
  | .literal name => .literal name

instance : Expressible TargetDependency := ⟨expression⟩

end TargetDependency

end SwiftManifest
