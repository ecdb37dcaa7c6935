import SwiftManifest.Configuration.Platform
import SwiftManifest.Expression.Setting

/-! Configuring resources, settings and plugin usages. -/

namespace SwiftManifest

inductive ResourceStart where
  | copy (path : String)
  | process (path : String)
  | processLocalized (path localization : String)
  deriving DecidableEq, Repr

instance : Start ResourceStart Resource where
  node
    | .copy path => .copy path
    | .process path => .process path none
    | .processLocalized path localization => .process path (some localization)
  shown := Journal.ofNode

abbrev ResourceAddition := Addition ResourceStart Empty

/-- Restricts a setting to a condition configured from scratch. -/
structure SettingRestriction where
  calls : List ConditionCall
  deriving DecidableEq, Repr

instance {α : Type} : Call SettingRestriction (Setting α) where
  apply restriction s := { s with condition := some (run restriction.calls ({} : Condition)) }
  journal restriction _ := journal restriction.calls ({} : Condition)

inductive CompilerSettingStart where
  | headerSearchPath (path : String)
  | define (name : String)
  | defineTo (name value : String)
  | unsafeFlags (flags : List String)
  deriving DecidableEq, Repr

instance : Start CompilerSettingStart CompilerSetting where
  node
    | .headerSearchPath path => { option := .headerSearchPath path }
    | .define name => { option := .define name none }
    | .defineTo name value => { option := .define name (some value) }
    | .unsafeFlags flags => { option := .unsafeFlags flags }
  shown := Journal.ofNode

abbrev CompilerSettingAddition := Addition CompilerSettingStart SettingRestriction

inductive LinkerSettingStart where
  | linkedFramework (framework : String)
  | linkedLibrary (library : String)
  | unsafeFlags (flags : List String)
  deriving DecidableEq, Repr

instance : Start LinkerSettingStart LinkerSetting where
  node
    | .linkedFramework framework => { option := .linkedFramework framework }
    | .linkedLibrary library => { option := .linkedLibrary library }
    | .unsafeFlags flags => { option := .unsafeFlags flags }
  shown := Journal.ofNode

abbrev LinkerSettingAddition := Addition LinkerSettingStart SettingRestriction

inductive PluginUsageStart where
  | plugin (name : String)
  | pluginFrom (name package : String)
  deriving DecidableEq, Repr

instance : Start PluginUsageStart PluginUsage where
  node
    | .plugin name => { name }
    | .pluginFrom name package => { name, package := some package }
  shown := Journal.ofNode

abbrev PluginUsageAddition := Addition PluginUsageStart Empty

end SwiftManifest
