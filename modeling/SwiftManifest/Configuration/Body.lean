import SwiftManifest.Configuration.Setting
import SwiftManifest.Configuration.Dependency
import SwiftManifest.Expression.Target

/-! Configuring what the kinds of targets are made of. -/

namespace SwiftManifest

inductive SourceCall where
  | exclude (patterns : List String)
  | sources (patterns : List String)
  | dependencies (additions : List TargetDependencyAddition)
  | dependenciesNamed (names : List String)
  | inspect
  deriving DecidableEq, Repr

instance : Call SourceCall Sources where
  apply
    | .exclude patterns, s => { s with exclude := s.exclude ++ patterns }
    | .sources patterns, s => { s with sources := s.sources ++ patterns }
    | .dependencies additions, s => { s with dependencies := run additions s.dependencies }
    | .dependenciesNamed names, s =>
      { s with dependencies := s.dependencies ++ names.map .literal }
    | .inspect, s => s
  journal
    | .dependencies additions, s => journal additions s.dependencies
    | .inspect, s => { entries := [.layout s.exclude s.sources s.dependencies.length] }
    | _, _ => {}

inductive BuildCall where
  | resources (additions : List ResourceAddition)
  | cSettings (additions : List CompilerSettingAddition)
  | cxxSettings (additions : List CompilerSettingAddition)
  | swiftSettings (additions : List CompilerSettingAddition)
  | linkerSettings (additions : List LinkerSettingAddition)
  | plugins (additions : List PluginUsageAddition)
  | inspect
  deriving DecidableEq, Repr

instance : Call BuildCall BuildSettings where
  apply
    | .resources additions, b => { b with resources := run additions b.resources }
    | .cSettings additions, b => { b with cSettings := run additions b.cSettings }
    | .cxxSettings additions, b => { b with cxxSettings := run additions b.cxxSettings }
    | .swiftSettings additions, b => { b with swiftSettings := run additions b.swiftSettings }
    | .linkerSettings additions, b =>
      { b with linkerSettings := run additions b.linkerSettings }
    | .plugins additions, b => { b with plugins := run additions b.plugins }
    | .inspect, b => b
  journal
    | .resources additions, b => journal additions b.resources
    | .cSettings additions, b => journal additions b.cSettings
    | .cxxSettings additions, b => journal additions b.cxxSettings
    | .swiftSettings additions, b => journal additions b.swiftSettings
    | .linkerSettings additions, b => journal additions b.linkerSettings
    | .plugins additions, b => journal additions b.plugins
    | .inspect, b =>
      { entries := [.sizes [b.resources.length, b.cSettings.length, b.cxxSettings.length,
          b.swiftSettings.length, b.linkerSettings.length, b.plugins.length]] }

inductive SourceModuleCall where
  | source (call : SourceCall)
  | build (call : BuildCall)
  deriving DecidableEq, Repr

instance : Call SourceModuleCall SourceModule where
  apply
    | .source call, m => { m with toSources := Call.apply call m.toSources }
    | .build call, m => { m with toBuildSettings := Call.apply call m.toBuildSettings }
  journal
    | .source call, m => Call.journal call m.toSources
    | .build call, m => Call.journal call m.toBuildSettings

inductive PublicModuleCall where
  | module (call : SourceModuleCall)
  | publicHeadersPath (path : String)
  deriving DecidableEq, Repr

instance : Call PublicModuleCall PublicModule where
  apply
    | .module call, m => { m with toSourceModule := Call.apply call m.toSourceModule }
    | .publicHeadersPath path, m => { m with publicHeadersPath := some path }
  journal
    | .module call, m => Call.journal call m.toSourceModule
    | .publicHeadersPath _, _ => {}

/-- One write permission for each reason. -/
inductive CommandCall where
  | intent (value : CommandIntent)
  | documentationGeneration
  | sourceCodeFormatting
  | customIntent (verb description : String)
  | permissions (reasons : List String)
  deriving DecidableEq, Repr

namespace CommandCall

def apply : CommandCall → CommandCapability → CommandCapability
  | .intent value, c => { c with intent := some value }
  | .documentationGeneration, c => { c with intent := some .documentationGeneration }
  | .sourceCodeFormatting, c => { c with intent := some .sourceCodeFormatting }
  | .customIntent verb description, c => { c with intent := some (.custom verb description) }
  | .permissions reasons, c =>
    { c with permissions := c.permissions ++ reasons.map .writeToPackageDirectory }

def nested : CommandCall → Journal
  | .permissions reasons =>
    { entries := reasons.map fun reason =>
        .node (render (Permission.writeToPackageDirectory reason)) }
  | _ => {}

instance : Call CommandCall CommandCapability where
  apply := apply
  journal call c := call.nested ++ Journal.ofNode (apply call c)

end CommandCall

inductive PluginCall where
  | source (call : SourceCall)
  | capability (value : Capability)
  | buildTool
  | command (calls : List CommandCall)
  deriving DecidableEq, Repr

/-- Every call for a command configures a new one, which replaces the capability there was. -/
instance : Call PluginCall Plugin where
  apply
    | .source call, p => { p with toSources := Call.apply call p.toSources }
    | .capability value, p => { p with capability := some value }
    | .buildTool, p => { p with capability := some .buildTool }
    | .command calls, p =>
      { p with capability := some (.command (run calls ({} : CommandCapability))) }
  journal
    | .source call, p => Call.journal call p.toSources
    | .capability _, _ | .buildTool, _ => {}
    | .command calls, _ => journal calls ({} : CommandCapability)

instance : Start PackageProvider PackageProvider where
  node p := p
  shown := Journal.ofNode

abbrev ProviderAddition := Addition PackageProvider Empty

inductive SystemLibraryCall where
  | pkgConfig (name : String)
  | providers (additions : List ProviderAddition)
  deriving DecidableEq, Repr

/-- The first call for providers makes their list, even when it adds none. -/
instance : Call SystemLibraryCall SystemLibrary where
  apply
    | .pkgConfig name, l => { l with pkgConfig := some name }
    | .providers additions, l => { l with providers := some (run additions (l.providers.getD [])) }
  journal
    | .pkgConfig _, _ => {}
    | .providers additions, l => journal additions (l.providers.getD [])

inductive BinaryCall where
  | url (value : String)
  | checksum (value : String)
  | dependencies (additions : List TargetDependencyAddition)
  deriving DecidableEq, Repr

instance : Call BinaryCall BinaryArtifact where
  apply
    | .url value, b => { b with url := some value }
    | .checksum value, b => { b with checksum := some value }
    | .dependencies additions, b => { b with dependencies := run additions b.dependencies }
  journal
    | .dependencies additions, b => journal additions b.dependencies
    | _, _ => {}

end SwiftManifest
