import SwiftManifest.Configuration.Body

/-! Configuring targets. A target is configured before it is appended to the package. -/

namespace SwiftManifest

inductive TargetCall (β : Type) where
  | path (value : String)
  | clearName
  | inspect
  | body (call : β)
  deriving DecidableEq, Repr

namespace TargetCall

variable {β σ : Type} [Call β σ]

instance : Call (TargetCall β) (Declared σ) where
  apply
    | .path value, t => { t with path := some value }
    | .clearName, t => { t with name := none }
    | .inspect, t => t
    | .body call, t => { t with body := Call.apply call t.body }
  journal
    | .inspect, t => { entries := [.identity t.name t.path] }
    | .body call, t => Call.journal call t.body
    | _, _ => {}

/-- The journal of configuring a target shows the whole target after every call; `kind` makes a
target out of it. -/
def journalAs (kind : σ → TargetBody) : List (TargetCall β) → Declared σ → Journal
  | [], _ => {}
  | call :: calls, t =>
    let next := Call.apply call t
    let target : Target := next.map kind
    Call.journal call t ++ Journal.ofNode target ++ journalAs kind calls next

end TargetCall

inductive TargetStart where
  | target (name : String) (calls : List (TargetCall PublicModuleCall))
  | executableTarget (name : String) (calls : List (TargetCall PublicModuleCall))
  | testTarget (name : String) (calls : List (TargetCall SourceModuleCall))
  | plugin (name : String) (calls : List (TargetCall PluginCall))
  | systemLibrary (name : String) (calls : List (TargetCall SystemLibraryCall))
  | binaryTarget (name url checksum : String) (calls : List (TargetCall BinaryCall))
  | binaryTargetPath (name path : String) (calls : List (TargetCall BinaryCall))
  deriving DecidableEq, Repr

namespace TargetStart

def named {σ : Type} (name : String) (body : σ) : Declared σ := { name := some name, body }

def remote (name url checksum : String) : Declared BinaryArtifact :=
  named name { url := some url, checksum := some checksum }

def vendored (name path : String) : Declared BinaryArtifact :=
  { name := some name, path := some path, body := {} }

def node : TargetStart → Target
  | .target name calls => (run calls (named name ({} : PublicModule))).map .regular
  | .executableTarget name calls => (run calls (named name ({} : PublicModule))).map .executable
  | .testTarget name calls => (run calls (named name ({} : SourceModule))).map .test
  | .plugin name calls => (run calls (named name ({} : Plugin))).map .plugin
  | .systemLibrary name calls =>
    (run calls (named name ({} : SystemLibrary))).map .systemLibrary
  | .binaryTarget name url checksum calls => (run calls (remote name url checksum)).map .binary
  | .binaryTargetPath name path calls => (run calls (vendored name path)).map .binary

def journal : TargetStart → Journal
  | .target name calls => TargetCall.journalAs .regular calls (named name ({} : PublicModule))
  | .executableTarget name calls =>
    TargetCall.journalAs .executable calls (named name ({} : PublicModule))
  | .testTarget name calls => TargetCall.journalAs .test calls (named name ({} : SourceModule))
  | .plugin name calls => TargetCall.journalAs .plugin calls (named name ({} : Plugin))
  | .systemLibrary name calls =>
    TargetCall.journalAs .systemLibrary calls (named name ({} : SystemLibrary))
  | .binaryTarget name url checksum calls =>
    TargetCall.journalAs .binary calls (remote name url checksum)
  | .binaryTargetPath name path calls =>
    TargetCall.journalAs .binary calls (vendored name path)

/-- An appended target is shown with its keyword and name. -/
def shown (t : Target) : Journal :=
  { entries := [.target t.body.keyword t.name (renderTraced t).value]
    events := (renderTraced t).events }

instance : Start TargetStart Target := ⟨node, journal, shown⟩

end TargetStart

abbrev TargetAddition := Addition TargetStart Empty

end SwiftManifest
