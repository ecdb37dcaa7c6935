import SwiftManifest.Expression.Setting
import SwiftManifest.Expression.Dependency
import SwiftManifest.Model.Target

/-! Expressions of targets. Arguments come in the order of the manifest's own parameter lists,
which differs between kinds. -/

namespace SwiftManifest

namespace PackageProvider

def expression (p : PackageProvider) : Expression :=
  .inlineCall ("." ++ p.provider.symbol) [.strings p.packages]

instance : Expressible PackageProvider := ⟨expression⟩

end PackageProvider

namespace CommandIntent

def expression : CommandIntent → Expression
  | .documentationGeneration => .inlineCall ".documentationGeneration" []
  | .sourceCodeFormatting => .inlineCall ".sourceCodeFormatting" []
  | .custom verb description =>
    .inlineCall ".custom" [literalArgument "verb" verb, literalArgument "description" description]

instance : Expressible CommandIntent := ⟨expression⟩

end CommandIntent

namespace Permission

def expression : Permission → Expression
  | .writeToPackageDirectory reason =>
    .inlineCall ".writeToPackageDirectory" [literalArgument "reason" reason]

instance : Expressible Permission := ⟨expression⟩

end Permission

namespace CommandCapability

/-- The permissions are written even when there are none. -/
def expression (c : CommandCapability) : Expression :=
  .inlineCall ".command"
    (optionalNode "intent" c.intent ++
      [.labeled "permissions" (SwiftManifest.expression c.permissions)])

instance : Expressible CommandCapability := ⟨expression⟩

end CommandCapability

namespace Capability

def expression : Capability → Expression
  | .buildTool => .inlineCall ".buildTool" []
  | .command c => c.expression

instance : Expressible Capability := ⟨expression⟩

end Capability

namespace Sources

def dependencyArguments (s : Sources) : List Expression :=
  optionalList "dependencies" s.dependencies

def fileArguments (s : Sources) : List Expression :=
  optionalStrings "exclude" s.exclude ++ optionalStrings "sources" s.sources

end Sources

namespace BuildSettings

def resourceArguments (b : BuildSettings) : List Expression :=
  optionalList "resources" b.resources

def settingArguments (b : BuildSettings) : List Expression :=
  optionalList "cSettings" b.cSettings ++ optionalList "cxxSettings" b.cxxSettings ++
    optionalList "swiftSettings" b.swiftSettings ++
    optionalList "linkerSettings" b.linkerSettings ++ optionalList "plugins" b.plugins

end BuildSettings

namespace SourceModule

/-- The arguments of a module; `headers` stands between its resources and its settings. -/
def arguments (name path : Option String) (m : SourceModule) (headers : List Expression) :
    List Expression :=
  optionalLiteral "name" name ++ m.dependencyArguments ++ optionalLiteral "path" path ++
    m.fileArguments ++ m.resourceArguments ++ headers ++ m.settingArguments

end SourceModule

namespace Plugin

def arguments (name path : Option String) (p : Plugin) : List Expression :=
  optionalLiteral "name" name ++ optionalNode "capability" p.capability ++
    p.dependencyArguments ++ optionalLiteral "path" path ++ p.fileArguments

end Plugin

/-- A name that is written even when it is missing. -/
def nameOrNil : Option String → Expression
  | none => .labeled "name" .absent
  | some name => literalArgument "name" name

namespace SystemLibrary

def arguments (name path : Option String) (l : SystemLibrary) : List Expression :=
  nameOrNil name :: optionalLiteral "path" path ++ optionalLiteral "pkgConfig" l.pkgConfig ++
    optionalNode "providers" l.providers

end SystemLibrary

namespace BinaryArtifact

def arguments (name path : Option String) (b : BinaryArtifact) : List Expression :=
  nameOrNil name :: optionalLiteral "path" path ++ optionalLiteral "url" b.url ++
    optionalLiteral "checksum" b.checksum ++ optionalList "dependencies" b.dependencies

end BinaryArtifact

namespace TargetBody

def arguments (name path : Option String) : TargetBody → List Expression
  | .regular m | .executable m =>
    m.toSourceModule.arguments name path (optionalLiteral "publicHeadersPath" m.publicHeadersPath)
  | .test m => m.arguments name path []
  | .plugin p => p.arguments name path
  | .systemLibrary l => l.arguments name path
  | .binary b => b.arguments name path

end TargetBody

instance : Expressible Target where
  expression t := .call t.body.keyword (t.body.arguments t.name t.path)

end SwiftManifest
