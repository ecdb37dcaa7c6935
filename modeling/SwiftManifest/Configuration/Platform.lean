import SwiftManifest.Configuration.Call
import SwiftManifest.Expression.Platform

/-! Configuring platforms and conditions. -/

namespace SwiftManifest

inductive VersionCall where
  | versionString (value : String)
  | version (symbol : String)
  deriving DecidableEq, Repr

namespace VersionCall

/-- A deployment version stands for its symbol. -/
def deployment {α : Type} [Symbolic α] (version : α) : VersionCall :=
  .version (Symbolic.symbol version)

instance : Call VersionCall SupportedPlatform where
  apply
    | .versionString value, p => { p with versionString := some value }
    | .version symbol, p => { p with version := some symbol }

end VersionCall

inductive PlatformStart where
  | platform (platform : Platform)
  | custom (name version : String)
  deriving DecidableEq, Repr

instance : Start PlatformStart SupportedPlatform where
  node
    | .platform platform => { platform }
    | .custom name version => { platform := .custom name, versionString := some version }
  shown := Journal.ofNode

abbrev PlatformAddition := Addition PlatformStart VersionCall

inductive ConditionCall where
  | platforms (additions : List PlatformAddition)
  | configuration (value : BuildConfiguration)
  deriving DecidableEq, Repr

namespace ConditionCall

/-- A call for the platforms replaces the list. -/
def apply : ConditionCall → Condition → Condition
  | .platforms additions, c => { c with platforms := some (run additions []) }
  | .configuration value, c => { c with configuration := some value }

def nested : ConditionCall → Journal
  | .platforms additions => journal additions ([] : List SupportedPlatform)
  | .configuration _ => {}

instance : Call ConditionCall Condition where
  apply := apply
  journal call c := call.nested ++ Journal.ofNode (apply call c)

end ConditionCall

end SwiftManifest
