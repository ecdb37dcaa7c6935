import SwiftManifest.Model.Platform

/-! What a compiled target is built with: resources, compiler and linker settings, and plugins. -/

namespace SwiftManifest

inductive Resource where
  | copy (path : String)
  | process (path : String) (localization : Option String)
  deriving DecidableEq, Repr

namespace Resource

def path : Resource → String
  | .copy path => path
  | .process path _ => path

end Resource

inductive CompilerOption where
  | headerSearchPath (path : String)
  | define (name : String) (value : Option String)
  | unsafeFlags (flags : List String)
  deriving DecidableEq, Repr

inductive LinkerOption where
  | linkedFramework (framework : String)
  | linkedLibrary (library : String)
  | unsafeFlags (flags : List String)
  deriving DecidableEq, Repr

/-- An option of a build tool, given always or under a condition. -/
structure Setting (α : Type) where
  option : α
  condition : Option Condition := none
  deriving DecidableEq, Repr

abbrev CompilerSetting := Setting CompilerOption
abbrev LinkerSetting := Setting LinkerOption

/-- A plugin applied to a target; it comes from the same package when none is named. -/
structure PluginUsage where
  name : String
  package : Option String := none
  deriving DecidableEq, Repr

end SwiftManifest
