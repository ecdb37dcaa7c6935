import SwiftManifest.Configuration.Target
import SwiftManifest.Expression.Package

/-! Configuring packages, from a name or from a package that was loaded. -/

namespace SwiftManifest

inductive ProductStart where
  | library (name : String) (targets : List String)
  | libraryWithLinkage (name : String) (linkage : Linkage) (targets : List String)
  | executable (name : String) (targets : List String)
  | plugin (name : String) (targets : List String)
  deriving DecidableEq, Repr

instance : Start ProductStart Product where
  node
    | .library name targets => { kind := .library none, name, targets }
    | .libraryWithLinkage name linkage targets => { kind := .library (some linkage), name, targets }
    | .executable name targets => { kind := .executable, name, targets }
    | .plugin name targets => { kind := .plugin, name, targets }
  shown := Journal.ofNode

abbrev ProductAddition := Addition ProductStart Empty

instance : Start SwiftLanguageVersion SwiftLanguageVersion where
  node version := version
  shown := Journal.ofNode

abbrev LanguageVersionAddition := Addition SwiftLanguageVersion Empty

inductive PackageCall where
  | defaultLocalization (value : String)
  | cLanguageStandard (value : CLanguageStandard)
  | cxxLanguageStandard (value : CxxLanguageStandard)
  | platforms (additions : List PlatformAddition)
  | products (additions : List ProductAddition)
  | dependencies (additions : List PackageDependencyAddition)
  | targets (additions : List TargetAddition)
  | swiftLanguageVersions (additions : List LanguageVersionAddition)
  deriving DecidableEq, Repr

instance : Call PackageCall Package where
  apply
    | .defaultLocalization value, p => { p with defaultLocalization := some value }
    | .cLanguageStandard value, p => { p with cLanguageStandard := some value }
    | .cxxLanguageStandard value, p => { p with cxxLanguageStandard := some value }
    | .platforms additions, p => { p with platforms := run additions p.platforms }
    | .products additions, p => { p with products := run additions p.products }
    | .dependencies additions, p => { p with dependencies := run additions p.dependencies }
    | .targets additions, p => { p with targets := run additions p.targets }
    | .swiftLanguageVersions additions, p =>
      { p with swiftLanguageVersions := run additions p.swiftLanguageVersions }
  journal
    | .platforms additions, p => journal additions p.platforms
    | .products additions, p => journal additions p.products
    | .dependencies additions, p => journal additions p.dependencies
    | .targets additions, p => journal additions p.targets
    | .swiftLanguageVersions additions, p => journal additions p.swiftLanguageVersions
    | _, _ => {}

/-- A package under construction, with the text it had after every call so far. -/
structure Construction where
  package : Package
  states : List Text := []
  journal : Journal := {}
  deriving DecidableEq, Repr

namespace Construction

def step (c : Construction) (call : PackageCall) : Construction :=
  let package := Call.apply call c.package
  let text := renderTraced package
  { package
    states := c.states ++ [text.value]
    journal := c.journal ++ Call.journal call c.package ++ { events := text.events } }

def ofCalls (package : Package) (calls : List PackageCall) : Construction :=
  calls.foldl step { package }

end Construction

end SwiftManifest
