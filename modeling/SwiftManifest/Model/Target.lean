import SwiftManifest.Model.Setting
import SwiftManifest.Model.Dependency

/-! Targets: the modules, plugins and libraries that a package builds. Every target may have a name
and a path; what else it has depends on its kind. -/

namespace SwiftManifest

inductive ProviderKind where
  | brew | apt | yum
  deriving DecidableEq, Repr

namespace ProviderKind

def symbol : ProviderKind → String
  | .brew => "brew"
  | .apt => "apt"
  | .yum => "yum"

instance : Symbolic ProviderKind where
  kind := "ProviderKind"
  all := [.brew, .apt, .yum]
  symbol := symbol
  mem_all := by intro a; cases a <;> decide
  symbols_nodup := by decide

end ProviderKind

/-- Packages of one system package manager that provide a library. -/
structure PackageProvider where
  provider : ProviderKind
  packages : List String := []
  deriving DecidableEq, Repr

inductive CommandIntent where
  | documentationGeneration
  | sourceCodeFormatting
  | custom (verb description : String)
  deriving DecidableEq, Repr

inductive Permission where
  | writeToPackageDirectory (reason : String)
  deriving DecidableEq, Repr

structure CommandCapability where
  intent : Option CommandIntent := none
  permissions : List Permission := []
  deriving DecidableEq, Repr

/-- A plugin runs as part of the build, or as a command on demand. -/
inductive Capability where
  | buildTool
  | command (details : CommandCapability)
  deriving DecidableEq, Repr

structure Sources where
  exclude : List String := []
  sources : List String := []
  dependencies : List TargetDependency := []
  deriving DecidableEq, Repr

structure BuildSettings where
  resources : List Resource := []
  cSettings : List CompilerSetting := []
  cxxSettings : List CompilerSetting := []
  swiftSettings : List CompilerSetting := []
  linkerSettings : List LinkerSetting := []
  plugins : List PluginUsage := []
  deriving DecidableEq, Repr

/-- Sources that are compiled. -/
structure SourceModule extends Sources, BuildSettings where
  deriving DecidableEq, Repr

/-- A module that other modules can import. -/
structure PublicModule extends SourceModule where
  publicHeadersPath : Option String := none
  deriving DecidableEq, Repr

structure Plugin extends Sources where
  capability : Option Capability := none
  deriving DecidableEq, Repr

structure SystemLibrary where
  pkgConfig : Option String := none
  providers : Option (List PackageProvider) := none
  deriving DecidableEq, Repr

structure BinaryArtifact where
  url : Option String := none
  checksum : Option String := none
  dependencies : List TargetDependency := []
  deriving DecidableEq, Repr

inductive TargetBody where
  | regular (body : PublicModule)
  | executable (body : PublicModule)
  | test (body : SourceModule)
  | plugin (body : Plugin)
  | systemLibrary (body : SystemLibrary)
  | binary (body : BinaryArtifact)
  deriving DecidableEq, Repr

/-- A target with a body of type `β`. -/
structure Declared (β : Type) where
  name : Option String := none
  path : Option String := none
  body : β
  deriving DecidableEq, Repr

abbrev Target := Declared TargetBody

namespace TargetBody

/-- The name of the kind in descriptors. -/
def kind : TargetBody → String
  | .regular _ => "target"
  | .executable _ => "executableTarget"
  | .test _ => "testTarget"
  | .plugin _ => "plugin"
  | .systemLibrary _ => "systemLibrary"
  | .binary _ => "binaryTarget"

/-- The call of the kind in manifests. -/
def keyword (body : TargetBody) : String := "." ++ body.kind

end TargetBody

namespace Declared

def map {β γ : Type} (f : β → γ) (target : Declared β) : Declared γ :=
  { name := target.name, path := target.path, body := f target.body }

end Declared

end SwiftManifest
