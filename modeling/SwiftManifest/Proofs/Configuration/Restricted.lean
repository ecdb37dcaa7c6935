import SwiftManifest.Proofs.Configuration.Run
import SwiftManifest.Proofs.Manifest.Trace

/-! Restricting the same node again and again. A dependency of a target takes the platforms of the
last restriction and keeps the build configuration that it had before all of them; a setting takes
the whole condition of the last one. A literal dependency stays as it is, with a warning for every
call. -/

namespace SwiftManifest

section Running

variable {κ σ : Type} [Call κ σ]

/-- Of calls that each undo the one before, only the last one counts. -/
theorem run_concat (hundo : ∀ (call next : κ) (s : σ),
    Call.apply next (Call.apply call s) = Call.apply next s) (before : List κ) (last : κ) (s : σ) :
    run (before ++ [last]) s = Call.apply last s := by
  induction before generalizing s with
  | nil => rfl
  | cons call calls ih => exact (ih (Call.apply call s)).trans (hundo call last s)

theorem events_append (a b : Journal) : (a ++ b).events = a.events ++ b.events := rfl

/-- Calls report the same each time when nothing that they report on changes. -/
theorem events_journal (reported : σ → List Event)
    (hcall : ∀ (call : κ) s, (Call.journal call s).events = reported s)
    (happly : ∀ (call : κ) s, reported (Call.apply call s) = reported s) (calls : List κ) (s : σ) :
    (journal calls s).events = (List.replicate calls.length (reported s)).flatten := by
  induction calls generalizing s with
  | nil => rfl
  | cons call calls ih =>
    rw [journal, events_append, hcall, ih, happly, List.length_cons, List.replicate_succ,
      List.flatten_cons]

theorem events_journal_silent (hcall : ∀ (call : κ) (s : σ), (Call.journal call s).events = [])
    (calls : List κ) (s : σ) : (journal calls s).events = [] := by
  have h := events_journal (fun _ => []) hcall (fun _ _ => rfl) calls s
  rwa [List.flatten_replicate_nil] at h

theorem events_ofNode {α : Type} [Expressible α] [Silent α] (a : α) :
    (Journal.ofNode a).events = [] :=
  Silent.events_eq a

end Running

theorem events_platforms (additions : List PlatformAddition) (ps : List SupportedPlatform) :
    (journal additions ps).events = [] := by
  refine events_journal_silent (fun addition nodes => ?_) additions ps
  have hchanges := events_journal_silent (fun (_ : VersionCall) (_ : SupportedPlatform) => rfl)
    addition.changes (Start.node addition.start)
  have hshown := events_ofNode (run addition.changes (Start.node addition.start))
  change [] ++ (journal addition.changes (Start.node addition.start)).events ++ _ = []
  rw [hchanges]
  exact hshown

namespace TargetDependency

theorem restricted_eq (platforms : List SupportedPlatform) (c : Option Condition) :
    restricted platforms c =
      some { platforms := some platforms, configuration := c.bind Condition.configuration } := by
  cases c <;> rfl

theorem restrict_restrict (ps qs : List SupportedPlatform) (d : TargetDependency) :
    (d.restrict ps).restrict qs = d.restrict qs := by
  cases d <;> simp [restrict, restricted_eq]

theorem restrictionEvents_restrict (ps : List SupportedPlatform) (d : TargetDependency) :
    (d.restrict ps).restrictionEvents = d.restrictionEvents := by
  cases d <;> rfl

/-- What becomes of a dependency that is restricted a number of times, last to `platforms`, and what
is recorded meanwhile. -/
inductive Narrowed (platforms : List SupportedPlatform) (calls : Nat) :
    TargetDependency → TargetDependency → List LogEntry → Prop
  | product (name : String) (package : Option String) (condition : Option Condition) :
      Narrowed platforms calls (.product name package condition)
        (.product name package
          (some ⟨some platforms, condition.bind Condition.configuration⟩)) []
  | target (name : String) (condition : Option Condition) :
      Narrowed platforms calls (.target name condition)
        (.target name (some ⟨some platforms, condition.bind Condition.configuration⟩)) []
  | byName (name : String) (condition : Option Condition) :
      Narrowed platforms calls (.byName name condition)
        (.byName name (some ⟨some platforms, condition.bind Condition.configuration⟩)) []
  | literal (name : String) :
      Narrowed platforms calls (.literal name) (.literal name)
        (List.replicate calls
          { level := .warn
            message := "ignoring condition on literal dependency `" ++ name ++ "`" })

theorem events_restrictions (restrictions : List PlatformRestriction) (d : TargetDependency) :
    (journal restrictions d).events =
      (List.replicate restrictions.length d.restrictionEvents).flatten := by
  refine events_journal restrictionEvents (fun restriction d => ?_)
    (fun _ => restrictionEvents_restrict _) _ d
  change (journal restriction.additions ([] : List SupportedPlatform)).events ++ _ = _
  rw [events_platforms]
  rfl

theorem narrowed (before : List PlatformRestriction) (last : PlatformRestriction)
    (d : TargetDependency) :
    d.Narrowed (run last.additions []) (before.length + 1) (run (before ++ [last]) d)
      ((journal (before ++ [last]) d).events.map Event.logEntry) := by
  have hrun : run (before ++ [last]) d = d.restrict (run last.additions []) :=
    run_concat (fun _ _ => restrict_restrict _ _) before last d
  rw [hrun, events_restrictions, List.length_append, List.length_singleton]
  cases d with
  | product name package condition =>
    simpa [restrict, restricted_eq, restrictionEvents] using .product name package condition
  | target name condition =>
    simpa [restrict, restricted_eq, restrictionEvents] using .target name condition
  | byName name condition =>
    simpa [restrict, restricted_eq, restrictionEvents] using .byName name condition
  | literal name =>
    rw [restrictionEvents, List.flatten_replicate_singleton, List.map_replicate]
    exact .literal name

end TargetDependency

namespace ConditionCall

def platforms? : ConditionCall → Option (List SupportedPlatform)
  | .platforms additions => some (run additions [])
  | .configuration _ => none

def configuration? : ConditionCall → Option BuildConfiguration
  | .platforms _ => none
  | .configuration value => some value

/-- The last call for the platforms and the last one for the configuration count, wherever they
stand to each other. -/
theorem run_eq (calls : List ConditionCall) (c : Condition) :
    run calls c =
      { platforms := (calls.filterMap platforms?).getLast?.or c.platforms
        configuration := (calls.filterMap configuration?).getLast?.or c.configuration } := by
  induction calls generalizing c with
  | nil => rfl
  | cons call calls ih =>
    change run calls (apply call c) = _
    rw [ih]
    cases call with
    | platforms additions =>
      simp [apply, platforms?, configuration?, List.getLast?_cons, Option.or_some]
    | configuration value =>
      simp [apply, platforms?, configuration?, List.getLast?_cons, Option.or_some]

end ConditionCall

theorem Setting.events_restrictions {α : Type} (restrictions : List SettingRestriction)
    (s : Setting α) : (journal restrictions s).events = [] := by
  refine events_journal_silent (fun restriction _ => ?_) restrictions s
  refine events_journal_silent (fun call c => ?_) restriction.calls ({} : Condition)
  change call.nested.events ++ (Journal.ofNode (call.apply c)).events = []
  rw [events_ofNode, List.append_nil]
  cases call with
  | platforms additions => exact events_platforms additions []
  | configuration value => rfl

/-- A dependency is narrowed to the platforms of its last restriction, without losing the build
configuration that it had. A setting has the condition of its last restriction, which begins as an
empty one and ends with the last platforms and the last configuration that it is given. -/
theorem restricted_by_last :
    (∀ (before : List PlatformRestriction) (last : PlatformRestriction) (d : TargetDependency),
      d.Narrowed (run last.additions []) (before.length + 1) (run (before ++ [last]) d)
        ((journal (before ++ [last]) d).events.map Event.logEntry)) ∧
    (∀ {α : Type} (before : List SettingRestriction) (last : SettingRestriction) (s : Setting α),
      run (before ++ [last]) s = { s with condition := some (run last.calls ({} : Condition)) } ∧
        (journal (before ++ [last]) s).events = []) ∧
    ∀ calls : List ConditionCall,
      run calls ({} : Condition) =
        { platforms := (calls.filterMap ConditionCall.platforms?).getLast?
          configuration := (calls.filterMap ConditionCall.configuration?).getLast? } := by
  refine ⟨TargetDependency.narrowed, fun before last s => ⟨?_, ?_⟩, fun calls => ?_⟩
  · exact run_concat (fun _ _ _ => rfl) before last s
  · exact s.events_restrictions (before ++ [last])
  · rw [ConditionCall.run_eq, Option.or_none, Option.or_none]

/-- Restricting a dependency to no platforms leaves it its configuration. -/
example :
    run [(⟨[⟨.platform .linux, []⟩]⟩ : PlatformRestriction), ⟨[]⟩]
        (TargetDependency.byName "A" (some { configuration := some .debug })) =
      .byName "A" (some { platforms := some [], configuration := some .debug }) := by
  decide

end SwiftManifest
