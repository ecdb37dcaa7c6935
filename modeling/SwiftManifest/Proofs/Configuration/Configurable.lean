import SwiftManifest.Proofs.Configuration.Run
import Mathlib.Data.Option.Basic

/-! The packages that configuration calls keep to. A target dependency is conditional on platforms
only, and a binary target lies at a path or comes from a URL with a checksum. No call makes anything
else of such a package. -/

namespace SwiftManifest

/-- A condition that names platforms and nothing else. -/
structure Condition.PlatformsOnly (c : Condition) : Prop where
  platforms : c.platforms.isSome
  configuration : c.configuration = none

/-- A dependency on no condition, or on platforms. -/
def TargetDependency.Configurable (d : TargetDependency) : Prop :=
  ∀ c ∈ d.condition, c.PlatformsOnly

/-- A binary that comes from a URL is checked. -/
structure BinaryArtifact.Remote (b : BinaryArtifact) : Prop where
  url : b.url.isSome
  checksum : b.checksum.isSome

def TargetBody.dependencies : TargetBody → List TargetDependency
  | .regular m | .executable m => m.dependencies
  | .test m => m.dependencies
  | .plugin p => p.dependencies
  | .systemLibrary _ => []
  | .binary b => b.dependencies

structure Package.Configurable (p : Package) : Prop where
  dependencies : ∀ t ∈ p.targets, ∀ d ∈ t.body.dependencies, d.Configurable
  binaries : ∀ t ∈ p.targets, ∀ b, t.body = .binary b → t.path.isSome ∨ b.Remote

namespace TargetDependency

theorem restrict_configurable (platforms : List SupportedPlatform) {d : TargetDependency}
    (h : d.Configurable) : (d.restrict platforms).Configurable := by
  have hrestricted : ∀ condition : Option Condition, (∀ c ∈ condition, c.PlatformsOnly) →
      ∀ c ∈ restricted platforms condition, c.PlatformsOnly := by
    intro condition hc c hmem
    cases condition with
    | none =>
      cases hmem
      exact ⟨rfl, rfl⟩
    | some c =>
      cases hmem
      exact ⟨rfl, (hc c rfl).configuration⟩
  cases d with
  | product _ _ condition => exact hrestricted condition h
  | target _ condition => exact hrestricted condition h
  | byName _ condition => exact hrestricted condition h
  | literal name => exact h

theorem literal_configurable (name : String) : (literal name).Configurable := by
  intro c hc
  cases hc

theorem node_configurable (addition : TargetDependencyAddition) :
    addition.node.Configurable := by
  refine run_preserves (fun call d => restrict_configurable _) addition.changes ?_
  intro c hc
  cases hstart : addition.start <;> rw [hstart] at hc <;> cases hc

end TargetDependency

/-- What is kept of the dependencies in a list. -/
abbrev AllConfigurable (ds : List TargetDependency) : Prop := ∀ d ∈ ds, d.Configurable

theorem run_allConfigurable (additions : List TargetDependencyAddition)
    {ds : List TargetDependency} (h : AllConfigurable ds) : AllConfigurable (run additions ds) :=
  forall_mem_run TargetDependency.node_configurable additions h

section Layers

theorem Sources.apply_configurable (call : SourceCall) (s : Sources)
    (h : AllConfigurable s.dependencies) : AllConfigurable (Call.apply call s).dependencies := by
  cases call with
  | dependencies additions => exact run_allConfigurable additions h
  | dependenciesNamed names =>
    refine List.forall_mem_append.mpr ⟨h, List.forall_mem_map.mpr ?_⟩
    exact fun name _ => TargetDependency.literal_configurable name
  | exclude _ => exact h
  | sources _ => exact h
  | inspect => exact h

theorem SourceModule.apply_configurable (call : SourceModuleCall) (m : SourceModule)
    (h : AllConfigurable m.dependencies) : AllConfigurable (Call.apply call m).dependencies := by
  cases call with
  | source call => exact Sources.apply_configurable call _ h
  | build _ => exact h

theorem PublicModule.apply_configurable (call : PublicModuleCall) (m : PublicModule)
    (h : AllConfigurable m.dependencies) : AllConfigurable (Call.apply call m).dependencies := by
  cases call with
  | module call => exact SourceModule.apply_configurable call _ h
  | publicHeadersPath _ => exact h

theorem Plugin.apply_configurable (call : PluginCall) (p : Plugin)
    (h : AllConfigurable p.dependencies) : AllConfigurable (Call.apply call p).dependencies := by
  cases call with
  | source call => exact Sources.apply_configurable call _ h
  | capability _ => exact h
  | buildTool => exact h
  | command _ => exact h

theorem BinaryArtifact.apply_configurable (call : BinaryCall) (b : BinaryArtifact)
    (h : AllConfigurable b.dependencies) : AllConfigurable (Call.apply call b).dependencies := by
  cases call with
  | dependencies additions => exact run_allConfigurable additions h
  | url _ => exact h
  | checksum _ => exact h

/-- No call takes the URL or the checksum away. -/
theorem BinaryArtifact.Remote.apply {b : BinaryArtifact} (h : b.Remote) (call : BinaryCall) :
    (Call.apply call b).Remote := by
  cases call with
  | url _ => exact ⟨rfl, h.checksum⟩
  | checksum _ => exact ⟨h.url, rfl⟩
  | dependencies _ => exact ⟨h.url, h.checksum⟩

/-- Calls on a target keep what every call on its body keeps. -/
theorem Declared.run_body {β σ : Type} [Call β σ] {P : σ → Prop}
    (hstep : ∀ (call : β) s, P s → P (Call.apply call s)) (calls : List (TargetCall β))
    {t : Declared σ} (h : P t.body) : P (run calls t).body := by
  refine run_preserves (P := fun t : Declared σ => P t.body) ?_ calls h
  intro call t ht
  cases call with
  | body call => exact hstep call t.body ht
  | path _ => exact ht
  | clearName => exact ht
  | inspect => exact ht

/-- A binary target keeps its path, or its URL and its checksum. -/
theorem Declared.run_located (calls : List (TargetCall BinaryCall))
    {t : Declared BinaryArtifact} (h : t.path.isSome ∨ t.body.Remote) :
    (run calls t).path.isSome ∨ (run calls t).body.Remote := by
  refine run_preserves (P := fun t : Declared BinaryArtifact =>
    t.path.isSome ∨ t.body.Remote) ?_ calls h
  intro call t ht
  cases call with
  | path _ => exact .inl rfl
  | clearName => exact ht
  | inspect => exact ht
  | body call => exact ht.imp_right fun hremote => hremote.apply call

end Layers

namespace TargetStart

theorem node_dependencies (start : TargetStart) :
    AllConfigurable start.node.body.dependencies := by
  have hnone : AllConfigurable [] := List.forall_mem_nil _
  cases start with
  | target _ calls =>
    exact Declared.run_body PublicModule.apply_configurable calls hnone
  | executableTarget _ calls =>
    exact Declared.run_body PublicModule.apply_configurable calls hnone
  | testTarget _ calls =>
    exact Declared.run_body SourceModule.apply_configurable calls hnone
  | plugin _ calls =>
    exact Declared.run_body Plugin.apply_configurable calls hnone
  | systemLibrary _ _ => exact hnone
  | binaryTarget name url checksum calls =>
    have hbody : AllConfigurable (remote name url checksum).body.dependencies := hnone
    exact Declared.run_body BinaryArtifact.apply_configurable calls hbody
  | binaryTargetPath name path calls =>
    have hbody : AllConfigurable (vendored name path).body.dependencies := hnone
    exact Declared.run_body BinaryArtifact.apply_configurable calls hbody

theorem node_located (start : TargetStart) (b : BinaryArtifact)
    (h : start.node.body = .binary b) : start.node.path.isSome ∨ b.Remote := by
  cases start with
  | binaryTarget name url checksum calls =>
    have hremote : (remote name url checksum).body.Remote := ⟨rfl, rfl⟩
    cases h
    exact Declared.run_located calls (.inr hremote)
  | binaryTargetPath name path calls =>
    have hpath : (vendored name path).path.isSome := rfl
    cases h
    exact Declared.run_located calls (.inl hpath)
  | _ => cases h

end TargetStart

namespace Package.Configurable

theorem new (name : String) : Configurable { name } :=
  ⟨List.forall_mem_nil _, List.forall_mem_nil _⟩

theorem apply {p : Package} (h : p.Configurable) (call : PackageCall) :
    (Call.apply call p).Configurable := by
  cases call with
  | targets additions =>
    constructor
    · refine forall_mem_run (fun addition => ?_) additions h.dependencies
      rw [addition.node_eq]
      exact addition.start.node_dependencies
    · refine forall_mem_run (fun addition => ?_) additions h.binaries
      rw [addition.node_eq]
      exact addition.start.node_located
  | _ => exact ⟨h.dependencies, h.binaries⟩

theorem run {p : Package} (h : p.Configurable) (calls : List PackageCall) :
    (SwiftManifest.run calls p).Configurable :=
  run_preserves (fun call _ hs => hs.apply call) calls h

end Package.Configurable

end SwiftManifest
