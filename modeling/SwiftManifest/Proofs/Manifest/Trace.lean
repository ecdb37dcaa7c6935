import SwiftManifest.Expression.Package
import SwiftManifest.Proofs.Expression.Events
import SwiftManifest.Proofs.Requirement.Slices
import Mathlib.Data.List.Basic

/-! The events of rendering a package: one for the package, and behind it one for each dependency
whose version constraint has several operators, in the order of the dependencies. All other nodes
are silent. -/

namespace SwiftManifest

open Expression (events)

instance : Silent SupportedPlatform where
  events_eq p := by
    change p.expression.events = []
    unfold SupportedPlatform.expression
    repeat' split
    all_goals simp

instance : Silent Condition where
  events_eq c := by
    change c.expression.events = []
    simp [Condition.expression]

theorem Condition.events_trailing (c : Option Condition) : (trailing c).flatMap events = [] := by
  cases c with
  | none => rfl
  | some c => exact (List.flatMap_singleton events _).trans (events_expression c)

instance : Silent TargetDependency where
  events_eq d := by
    change d.expression.events = []
    cases d <;> simp [TargetDependency.expression]

instance : Silent Resource where
  events_eq r := by
    change r.expression.events = []
    cases r <;> simp [Resource.expression]

theorem CompilerOption.events_arguments (o : CompilerOption) : o.arguments.flatMap events = [] := by
  cases o <;> simp [arguments]

theorem LinkerOption.events_arguments (o : LinkerOption) : o.arguments.flatMap events = [] := by
  cases o <;> simp [arguments]

instance : Silent CompilerSetting where
  events_eq s := by
    change (Expression.inlineCall s.option.keyword _).events = []
    rw [Expression.events_inlineCall, List.flatMap_append, s.option.events_arguments,
      Condition.events_trailing, List.append_nil]

instance : Silent LinkerSetting where
  events_eq s := by
    change (Expression.inlineCall s.option.keyword _).events = []
    rw [Expression.events_inlineCall, List.flatMap_append, s.option.events_arguments,
      Condition.events_trailing, List.append_nil]

instance : Silent PluginUsage where
  events_eq p := by
    change p.expression.events = []
    simp [PluginUsage.expression]

instance : Silent PackageProvider where
  events_eq p := by
    change p.expression.events = []
    simp [PackageProvider.expression]

instance : Silent CommandIntent where
  events_eq i := by
    change i.expression.events = []
    cases i <;> simp [CommandIntent.expression]

instance : Silent Permission where
  events_eq p := by
    change p.expression.events = []
    cases p
    simp [Permission.expression]

instance : Silent Capability where
  events_eq c := by
    change c.expression.events = []
    cases c <;> simp [Capability.expression, CommandCapability.expression]

instance : Silent Product where
  events_eq p := by
    change p.expression.events = []
    simp [Product.expression]

instance : Silent SwiftLanguageVersion where
  events_eq v := by
    change v.expression.events = []
    cases v <;> simp [SwiftLanguageVersion.expression]

theorem SourceModule.events_arguments {name path : Option String} (m : SourceModule)
    {headers : List Expression} (h : headers.flatMap events = []) :
    (m.arguments name path headers).flatMap events = [] := by
  simp only [arguments, Sources.dependencyArguments, Sources.fileArguments,
    BuildSettings.resourceArguments, BuildSettings.settingArguments, List.flatMap_append, h]
  simp

theorem events_nameOrNil (name : Option String) : (nameOrNil name).events = [] := by
  cases name <;> simp [nameOrNil]

theorem TargetBody.events_arguments (name path : Option String) (body : TargetBody) :
    (body.arguments name path).flatMap events = [] := by
  cases body with
  | regular m => exact m.toSourceModule.events_arguments (events_optionalLiteral _)
  | executable m => exact m.toSourceModule.events_arguments (events_optionalLiteral _)
  | test m => exact m.events_arguments rfl
  | plugin p =>
    simp [arguments, Plugin.arguments, Sources.dependencyArguments, Sources.fileArguments]
  | systemLibrary l => simp [arguments, SystemLibrary.arguments, events_nameOrNil]
  | binary b => simp [arguments, BinaryArtifact.arguments, events_nameOrNil]

instance : Silent Target where
  events_eq t := by
    change (Expression.call t.body.keyword _).events = []
    rw [Expression.events_call, TargetBody.events_arguments]

/-- An event as it is recorded. -/
structure LogEntry where
  level : Level
  message : String
  fields : List (String × FieldValue) := []
  deriving DecidableEq, Repr

def Event.logEntry (e : Event) : LogEntry :=
  { level := e.level, message := e.message, fields := e.fields }

theorem Event.message_severalOperators (constraint : String) (operators : List RangeOperator) :
    (severalOperators constraint operators).message =
      "version constraint `" ++ constraint ++ "` matched " ++ toString operators.length ++
        " operators: " ++ " ".intercalate (operators.map RangeOperator.symbol) := rfl

namespace PackageDependency

/-- What is recorded of a dependency: the operators of its version constraint when there are
several, in the order in which they are declared. -/
def constraintRecord? (d : PackageDependency) : Option LogEntry := do
  let constraint ← d.version
  let ms := operatorMatches constraint.toList
  if 1 < ms.length then
    some
      { level := .debug
        message := "version constraint `" ++ constraint ++ "` matched " ++ toString ms.length ++
          " operators: " ++ " ".intercalate (ms.map fun m => m.operator.symbol) }
  else none

theorem events_argument (location : Location) : location.argument.events = [] := by
  cases location <;> simp [Location.argument]

theorem events_expression (d : PackageDependency) :
    d.expression.events = (d.version.map fun c => (tracedRequirement c).events).getD [] := by
  rcases d with ⟨location, _ | constraint⟩ <;> simp [expression, events_argument]

theorem logEntries (d : PackageDependency) :
    d.expression.events.map Event.logEntry = d.constraintRecord?.toList := by
  rw [events_expression]
  rcases d with ⟨location, _ | constraint⟩
  · rfl
  · simp only [constraintRecord?, tracedRequirement, Option.map_some, Option.getD_some,
      Option.bind_eq_bind, Option.bind_some, List.length_map, gt_iff_lt]
    split
    · rw [List.map_singleton, Event.logEntry, Event.message_severalOperators, List.length_map,
        List.map_map, Function.comp_def]
      rfl
    · rfl

end PackageDependency

/-- What is recorded of a package, with the sizes of its collections. -/
def Package.renderingEntry (p : Package) : LogEntry :=
  { level := .debug
    message := "rendering package"
    fields :=
      [("name", .text p.name), ("platforms", .count p.platforms.length),
        ("products", .count p.products.length), ("dependencies", .count p.dependencies.length),
        ("targets", .count p.targets.length)] }

theorem Package.events_expression (p : Package) :
    p.expression.events =
      p.renderingEvent :: p.dependencies.flatMap fun d => (SwiftManifest.expression d).events := by
  simp [expression, arguments, events_optionalList "dependencies" p.dependencies]

theorem Package.logEntries (p : Package) :
    p.expression.events.map Event.logEntry =
      p.renderingEntry :: p.dependencies.filterMap PackageDependency.constraintRecord? := by
  have hdependencies :
      (p.dependencies.flatMap fun d => (SwiftManifest.expression d).events).map Event.logEntry =
        p.dependencies.filterMap PackageDependency.constraintRecord? := by
    rw [List.map_flatMap, List.filterMap_eq_flatMap_toList]
    apply List.flatMap_congr
    intro d _
    exact d.logEntries
  rw [events_expression, List.map_cons, hdependencies]
  rfl

/-- A rendering of a package gives a text, and its events are recorded in this order. -/
structure Package.RenderedAs (p : Package) (rendering : Traced Text) (text : Text) : Prop where
  value_eq : rendering.value = text
  logEntries_eq : rendering.events.map Event.logEntry =
    p.renderingEntry :: p.dependencies.filterMap PackageDependency.constraintRecord?

theorem Package.renderedAs_document (p : Package) : p.RenderedAs p.documentTraced p.document where
  value_eq := by simp [documentTraced, document, value_renderTraced]
  logEntries_eq := by
    have hevents : p.documentTraced.events = (renderTraced p).events := by
      simp [documentTraced]
    rw [hevents]
    exact p.logEntries

/-- The events of a package and of its document are determined by its dependencies, and the text is
the one that is written without them. No other node is reported, and the operators of a constraint
are named in the order in which they are declared. -/
theorem Package.rendering_recorded (p : Package) :
    p.RenderedAs (renderTraced p) (render p) ∧ p.RenderedAs p.documentTraced p.document ∧
      (Silent SupportedPlatform ∧ Silent Product ∧ Silent Target ∧ Silent CompilerSetting ∧
        Silent LinkerSetting ∧ Silent Condition) ∧
      ∀ constraint : String,
        ((operatorMatches constraint.toList).map OperatorMatch.operator).Sublist
          RangeOperator.all := by
  refine ⟨⟨value_renderTraced p, p.logEntries⟩, p.renderedAs_document, ?_, ?_⟩
  · exact ⟨inferInstance, inferInstance, inferInstance, inferInstance, inferInstance, inferInstance⟩
  · intro constraint
    exact sublist_matchesFrom constraint.toList [] RangeOperator.all

/-- One constraint of two operators between one without operators and none at all. -/
example :
    let dependencies : List PackageDependency :=
      [⟨.path "a", some "1"⟩, ⟨.url "b", some "<2!=1"⟩, ⟨.url "c", none⟩]
    ((renderTraced { name := "P", dependencies : Package }).events.map Event.logEntry).map
        LogEntry.message =
      ["rendering package", "version constraint `<2!=1` matched 2 operators: != <"] := by
  decide

end SwiftManifest
