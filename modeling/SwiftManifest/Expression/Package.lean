import SwiftManifest.Expression.Target
import SwiftManifest.Model.Package

/-! Expressions of products, language versions and packages, and the whole manifest. -/

namespace SwiftManifest

namespace Product

def keyword (p : Product) : String :=
  match p.kind with
  | .library _ => ".library"
  | .executable => ".executable"
  | .plugin => ".plugin"

def linkage (p : Product) : Option Linkage :=
  match p.kind with
  | .library linkage => linkage
  | _ => none

def expression (p : Product) : Expression :=
  .inlineCall p.keyword (literalArgument "name" p.name ::
    optionalNode "type" p.linkage ++ [.labeled "targets" (.strings p.targets)])

instance : Expressible Product := ⟨expression⟩

end Product

namespace SwiftLanguageVersion

def expression : SwiftLanguageVersion → Expression
  | .v4 => .symbol "v4"
  | .v4_2 => .symbol "v4_2"
  | .v5 => .symbol "v5"
  | .v6 => .symbol "v6"
  | .custom version => .inlineCall ".version" [.literal version]

instance : Expressible SwiftLanguageVersion := ⟨expression⟩

end SwiftLanguageVersion

namespace Package

def arguments (p : Package) : List Expression :=
  literalArgument "name" p.name :: optionalLiteral "defaultLocalization" p.defaultLocalization ++
    optionalList "platforms" p.platforms ++ optionalList "products" p.products ++
    optionalList "dependencies" p.dependencies ++ optionalList "targets" p.targets ++
    optionalList "swiftLanguageVersions" p.swiftLanguageVersions ++
    optionalNode "cLanguageStandard" p.cLanguageStandard ++
    optionalNode "cxxLanguageStandard" p.cxxLanguageStandard

def renderingEvent (p : Package) : Event :=
  .renderingPackage p.name p.platforms.length p.products.length p.dependencies.length
    p.targets.length

def expression (p : Package) : Expression :=
  .reported p.renderingEvent (.call "Package" p.arguments)

instance : Expressible Package := ⟨expression⟩

/-- The text of a manifest in front of its package. -/
def preamble : Text :=
  "// swift-tools-version:5.3\nimport PackageDescription\n\nlet package = ".toList

def document (p : Package) : Text := preamble ++ render p

def documentTraced (p : Package) : Traced Text := do
  return preamble ++ (← renderTraced p)

end Package

end SwiftManifest
