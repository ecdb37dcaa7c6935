import SwiftManifest.Model.Deployment

/-! Platforms with a minimum deployment version, and the conditions that restrict a setting or a
dependency to some of them. -/

namespace SwiftManifest

inductive Platform where
  | iOS | macOS | watchOS | tvOS | visionOS | driverKit | macCatalyst
  | linux | android | wasi | windows | openbsd
  | custom (name : String)
  deriving DecidableEq, Repr

namespace Platform

def identifier : Platform → String
  | .iOS => "iOS"
  | .macOS => "macOS"
  | .watchOS => "watchOS"
  | .tvOS => "tvOS"
  | .visionOS => "visionOS"
  | .driverKit => "driverKit"
  | .macCatalyst => "macCatalyst"
  | .linux => "linux"
  | .android => "android"
  | .wasi => "wasi"
  | .windows => "windows"
  | .openbsd => "openbsd"
  | .custom name => name

def isCustom : Platform → Bool
  | .custom _ => true
  | _ => false

/-- The platforms that a manifest knows by name. -/
def known : List Platform :=
  [.iOS, .macOS, .watchOS, .tvOS, .visionOS, .driverKit, .macCatalyst, .linux, .android, .wasi,
    .windows, .openbsd]

end Platform

/-- A platform entry. A literal version that is not empty wins over the symbolic one. -/
structure SupportedPlatform where
  platform : Platform
  versionString : Option String := none
  version : Option String := none
  deriving DecidableEq, Repr

namespace SupportedPlatform

def literalVersion (p : SupportedPlatform) : Option String :=
  p.versionString.filter (· ≠ "")

end SupportedPlatform

inductive BuildConfiguration where
  | debug | release
  deriving DecidableEq, Repr

namespace BuildConfiguration

def symbol : BuildConfiguration → String
  | .debug => "debug"
  | .release => "release"

instance : Symbolic BuildConfiguration where
  kind := "BuildConfiguration"
  all := [.debug, .release]
  symbol := symbol
  mem_all := by intro a; cases a <;> decide
  symbols_nodup := by decide

end BuildConfiguration

/-- No platform list is not the same as an empty one. -/
structure Condition where
  platforms : Option (List SupportedPlatform) := none
  configuration : Option BuildConfiguration := none
  deriving DecidableEq, Repr

end SwiftManifest
