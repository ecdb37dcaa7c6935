import SwiftManifest.Expression.Argument
import SwiftManifest.Model.Platform

/-! Expressions of platforms and conditions. -/

namespace SwiftManifest

namespace SupportedPlatform

def expression (p : SupportedPlatform) : Expression :=
  match p.platform with
  | .custom name =>
    .inlineCall ".custom" (.literal name :: optionalLiteral "versionString" p.literalVersion)
  | known =>
    match p.literalVersion, p.version with
    | some version, _ => .inlineCall ("." ++ known.identifier) [.literal version]
    | none, some version => .inlineCall ("." ++ known.identifier) [.symbol version]
    | none, none => .symbol known.identifier

instance : Expressible SupportedPlatform := ⟨expression⟩

end SupportedPlatform

namespace Condition

def expression (c : Condition) : Expression :=
  .inlineCall ".when"
    (optionalNode "platforms" c.platforms ++ optionalNode "configuration" c.configuration)

instance : Expressible Condition := ⟨expression⟩

/-- A condition as the last argument of a call, without a label. -/
def trailing : Option Condition → List Expression
  | none => []
  | some c => [c.expression]

end Condition

end SwiftManifest
