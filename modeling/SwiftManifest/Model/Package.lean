import SwiftManifest.Model.Language
import SwiftManifest.Model.Target

/-! Products, and the package that a manifest describes. -/

namespace SwiftManifest

inductive Linkage where
  | static | dynamic
  deriving DecidableEq, Repr

namespace Linkage

def symbol : Linkage → String
  | .static => "static"
  | .dynamic => "dynamic"

instance : Symbolic Linkage where
  kind := "Linkage"
  all := [.static, .dynamic]
  symbol := symbol
  mem_all := by intro a; cases a <;> decide
  symbols_nodup := by decide

end Linkage

/-- A library without a linkage leaves the choice to the build system. -/
inductive ProductKind where
  | library (linkage : Option Linkage)
  | executable
  | plugin
  deriving DecidableEq, Repr

structure Product where
  kind : ProductKind
  name : String
  targets : List String := []
  deriving DecidableEq, Repr

structure Package where
  name : String
  defaultLocalization : Option String := none
  platforms : List SupportedPlatform := []
  products : List Product := []
  dependencies : List PackageDependency := []
  targets : List Target := []
  swiftLanguageVersions : List SwiftLanguageVersion := []
  cLanguageStandard : Option CLanguageStandard := none
  cxxLanguageStandard : Option CxxLanguageStandard := none
  deriving DecidableEq, Repr

end SwiftManifest
