import SwiftManifest.Proofs.Expression.Nesting
import SwiftManifest.Proofs.Manifest.WellFormed

/-! The lines of a package are indented by nesting, and its brackets are balanced. -/

namespace SwiftManifest

open Expression (bareCalls bareCallsAll AllWellFormed allWellFormed_iff)

theorem Declared.bareCalls_expression {t : Target} (h : ∀ p ∈ t.body.entries, p.Plain) :
    (expression t).bareCalls = if t.arguments.isEmpty then 1 else 0 := by
  have harguments : AllWellFormed False t.arguments := TargetBody.wellFormed_arguments h
  have hzero := Expression.bareCallsAll_eq_zero fun e he =>
    Expression.bareCalls_eq_zero id (allWellFormed_iff.mp harguments e he)
  exact congrArg ((if t.arguments.isEmpty then 1 else 0) + ·) hzero

theorem Declared.bareCallsAll_expression {ts : List Target}
    (h : ∀ t ∈ ts, ∀ p ∈ t.body.entries, p.Plain) :
    bareCallsAll (ts.map expression) = ts.countP (·.arguments.isEmpty) := by
  induction ts with
  | nil => rfl
  | cons t ts ih =>
    rcases List.forall_mem_cons.mp h with ⟨ht, hts⟩
    rw [List.map_cons, bareCallsAll, bareCalls_expression ht, ih hts, List.countP_cons,
      Nat.add_comm]

theorem bareCallsAll_optionalList {α : Type} [Expressible α] (label : String) (as : List α) :
    bareCallsAll (optionalList label as) = bareCallsAll (as.map expression) := by
  cases as with
  | nil => rfl
  | cons a as => exact Nat.add_zero _

namespace Package

theorem bareCallsAll_arguments (p : Package) :
    bareCallsAll p.arguments = bareCallsAll { p with targets := [] }.arguments +
      bareCallsAll (optionalList "targets" p.targets) := by
  simp only [arguments, List.cons_append, bareCallsAll, Expression.bareCallsAll_append,
    optionalList]
  omega

theorem bareCalls_expression_eq (p : Package) :
    p.expression.bareCalls = bareCallsAll p.arguments := by
  have hne : p.arguments.isEmpty = false := rfl
  simp [expression, bareCalls, hne]

/-- Nothing in a package but its targets is a call without arguments. -/
theorem bareCalls_expression {p : Package} (hp : p.Plain) :
    p.expression.bareCalls = p.targets.countP (·.arguments.isEmpty) := by
  rcases List.forall_mem_append.mp hp with ⟨hplatforms, htargets⟩
  rw [List.forall_mem_flatMap] at htargets
  have hplain : { p with targets := [] }.Plain := by simpa [Plain, entries] using hplatforms
  have hrest : { p with targets := [] }.expression.bareCalls = 0 :=
    Expression.bareCalls_eq_zero (by simp) (wellFormed hplain)
  rw [bareCalls_expression_eq] at hrest
  rw [bareCalls_expression_eq, bareCallsAll_arguments, hrest, Nat.zero_add,
    bareCallsAll_optionalList, Declared.bareCallsAll_expression htargets]

end Package

/-- Indentation is nesting in a whole manifest, and its blank lines are those of targets that are
written without arguments. -/
theorem render_indentedByNesting {p : Package} (hp : p.Plain) :
    IndentedByNesting (lines (render p)) ∧ Balanced (skeleton (render p)) ∧
      (lines (render p)).countP blankLine = p.targets.countP (·.arguments.isEmpty) := by
  have hnested := Expression.nested_print (Package.wellFormed hp)
  have hblanks := hnested.count_eq.2
  rw [Package.bareCalls_expression hp, Nat.zero_add] at hblanks
  exact ⟨hnested.indentedByNesting, Expression.balanced_skeleton_print (Package.wellFormed hp),
    hblanks⟩

theorem render_target_without_arguments :
    let condition : Condition := { platforms := some [{ platform := .custom "]\n\t(" }] }
    let package : Package :=
      { name := "\t(["
        targets := [{ body := .regular { cSettings := [⟨.define "A" none, some condition⟩] } },
          { body := .test {} }] }
    IndentedByNesting (lines (render package)) ∧ Balanced (skeleton (render package)) ∧
      (lines (render package)).countP blankLine = 1 :=
  render_indentedByNesting (by decide)

end SwiftManifest
