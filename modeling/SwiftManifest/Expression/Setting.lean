import SwiftManifest.Expression.Platform
import SwiftManifest.Model.Setting

/-! Expressions of resources, settings and plugin usages. -/

namespace SwiftManifest

namespace Resource

def expression : Resource → Expression
  | .copy path => .inlineCall ".copy" [.literal path]
  | .process path localization =>
    .inlineCall ".process" (.literal path :: optionalLiteral "localization" localization)

instance : Expressible Resource := ⟨expression⟩

end Resource

namespace CompilerOption

def keyword : CompilerOption → String
  | .headerSearchPath _ => ".headerSearchPath"
  | .define .. => ".define"
  | .unsafeFlags _ => ".unsafeFlags"

def arguments : CompilerOption → List Expression
  | .headerSearchPath path => [.literal path]
  | .define name value => .literal name :: optionalLiteral "to" value
  | .unsafeFlags flags => [.strings flags]

end CompilerOption

namespace LinkerOption

def keyword : LinkerOption → String
  | .linkedFramework _ => ".linkedFramework"
  | .linkedLibrary _ => ".linkedLibrary"
  | .unsafeFlags _ => ".unsafeFlags"

def arguments : LinkerOption → List Expression
  | .linkedFramework framework => [.literal framework]
  | .linkedLibrary library => [.literal library]
  | .unsafeFlags flags => [.strings flags]

end LinkerOption

instance : Expressible CompilerSetting where
  expression s :=
    .inlineCall s.option.keyword (s.option.arguments ++ Condition.trailing s.condition)

instance : Expressible LinkerSetting where
  expression s :=
    .inlineCall s.option.keyword (s.option.arguments ++ Condition.trailing s.condition)

namespace PluginUsage

def expression (p : PluginUsage) : Expression :=
  .inlineCall ".plugin" (literalArgument "name" p.name :: optionalLiteral "package" p.package)

instance : Expressible PluginUsage := ⟨expression⟩

end PluginUsage

end SwiftManifest
