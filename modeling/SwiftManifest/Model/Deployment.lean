import SwiftManifest.Symbolic

/-! The deployment versions that each platform names by a symbol. -/

namespace SwiftManifest

inductive IosVersion where
  | v8 | v9 | v10 | v11 | v12 | v13 | v14 | v15 | v16 | v17 | v18
  deriving DecidableEq, Repr

namespace IosVersion

def symbol : IosVersion → String
  | .v8 => "v8"
  | .v9 => "v9"
  | .v10 => "v10"
  | .v11 => "v11"
  | .v12 => "v12"
  | .v13 => "v13"
  | .v14 => "v14"
  | .v15 => "v15"
  | .v16 => "v16"
  | .v17 => "v17"
  | .v18 => "v18"

instance : Symbolic IosVersion where
  kind := "IosVersion"
  all := [.v8, .v9, .v10, .v11, .v12, .v13, .v14, .v15, .v16, .v17, .v18]
  symbol := symbol
  mem_all := by intro a; cases a <;> decide
  symbols_nodup := by decide

end IosVersion

inductive MacOsVersion where
  | v10_10 | v10_11 | v10_12 | v10_13 | v10_14 | v10_15 | v11 | v12 | v13 | v14 | v15
  deriving DecidableEq, Repr

namespace MacOsVersion

def symbol : MacOsVersion → String
  | .v10_10 => "v10_10"
  | .v10_11 => "v10_11"
  | .v10_12 => "v10_12"
  | .v10_13 => "v10_13"
  | .v10_14 => "v10_14"
  | .v10_15 => "v10_15"
  | .v11 => "v11"
  | .v12 => "v12"
  | .v13 => "v13"
  | .v14 => "v14"
  | .v15 => "v15"

instance : Symbolic MacOsVersion where
  kind := "MacOsVersion"
  all := [.v10_10, .v10_11, .v10_12, .v10_13, .v10_14, .v10_15, .v11, .v12, .v13, .v14, .v15]
  symbol := symbol
  mem_all := by intro a; cases a <;> decide
  symbols_nodup := by decide

end MacOsVersion

inductive WatchOsVersion where
  | v2 | v3 | v4 | v5 | v6 | v7 | v8 | v9 | v10 | v11
  deriving DecidableEq, Repr

namespace WatchOsVersion

def symbol : WatchOsVersion → String
  | .v2 => "v2"
  | .v3 => "v3"
  | .v4 => "v4"
  | .v5 => "v5"
  | .v6 => "v6"
  | .v7 => "v7"
  | .v8 => "v8"
  | .v9 => "v9"
  | .v10 => "v10"
  | .v11 => "v11"

instance : Symbolic WatchOsVersion where
  kind := "WatchOsVersion"
  all := [.v2, .v3, .v4, .v5, .v6, .v7, .v8, .v9, .v10, .v11]
  symbol := symbol
  mem_all := by intro a; cases a <;> decide
  symbols_nodup := by decide

end WatchOsVersion

inductive TvOsVersion where
  | v9 | v10 | v11 | v12 | v13 | v14 | v15 | v16 | v17 | v18
  deriving DecidableEq, Repr

namespace TvOsVersion

def symbol : TvOsVersion → String
  | .v9 => "v9"
  | .v10 => "v10"
  | .v11 => "v11"
  | .v12 => "v12"
  | .v13 => "v13"
  | .v14 => "v14"
  | .v15 => "v15"
  | .v16 => "v16"
  | .v17 => "v17"
  | .v18 => "v18"

instance : Symbolic TvOsVersion where
  kind := "TvOsVersion"
  all := [.v9, .v10, .v11, .v12, .v13, .v14, .v15, .v16, .v17, .v18]
  symbol := symbol
  mem_all := by intro a; cases a <;> decide
  symbols_nodup := by decide

end TvOsVersion

inductive VisionOsVersion where
  | v1 | v2
  deriving DecidableEq, Repr

namespace VisionOsVersion

def symbol : VisionOsVersion → String
  | .v1 => "v1"
  | .v2 => "v2"

instance : Symbolic VisionOsVersion where
  kind := "VisionOsVersion"
  all := [.v1, .v2]
  symbol := symbol
  mem_all := by intro a; cases a <;> decide
  symbols_nodup := by decide

end VisionOsVersion

inductive DriverKitVersion where
  | v19 | v20 | v21 | v22 | v23 | v24
  deriving DecidableEq, Repr

namespace DriverKitVersion

def symbol : DriverKitVersion → String
  | .v19 => "v19"
  | .v20 => "v20"
  | .v21 => "v21"
  | .v22 => "v22"
  | .v23 => "v23"
  | .v24 => "v24"

instance : Symbolic DriverKitVersion where
  kind := "DriverKitVersion"
  all := [.v19, .v20, .v21, .v22, .v23, .v24]
  symbol := symbol
  mem_all := by intro a; cases a <;> decide
  symbols_nodup := by decide

end DriverKitVersion

inductive MacCatalystVersion where
  | v13 | v14 | v15 | v16 | v17 | v18
  deriving DecidableEq, Repr

namespace MacCatalystVersion

def symbol : MacCatalystVersion → String
  | .v13 => "v13"
  | .v14 => "v14"
  | .v15 => "v15"
  | .v16 => "v16"
  | .v17 => "v17"
  | .v18 => "v18"

instance : Symbolic MacCatalystVersion where
  kind := "MacCatalystVersion"
  all := [.v13, .v14, .v15, .v16, .v17, .v18]
  symbol := symbol
  mem_all := by intro a; cases a <;> decide
  symbols_nodup := by decide

end MacCatalystVersion

end SwiftManifest
