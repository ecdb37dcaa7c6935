import SwiftManifest.Proofs.Configuration.Run
import Mathlib.Data.List.Forall2

/-! Programs of calls that act on attributes. Where calls on different attributes commute, a program
is determined by its calls on each attribute, and the last call that sets an attribute decides its
value. -/

namespace SwiftManifest

/-- Calls that act on one attribute each; a call that only looks acts on none. -/
class Attributed (κ : Type) (A : outParam Type) where
  attributeOf : κ → Option A

open Attributed (attributeOf)

section Programs

variable {κ σ A : Type} [Call κ σ] [Attributed κ A]

/-- The calls on an attribute, in their order. -/
def callsOn [DecidableEq A] (a : A) (calls : List κ) : List κ :=
  calls.filter fun call => attributeOf call = some a

/-- Two programs that have the same calls on every attribute, where calls may differ as `R` says. -/
def Interleaved [DecidableEq A] (R : κ → κ → Prop) (calls calls' : List κ) : Prop :=
  ∀ a : A, List.Forall₂ R (callsOn a calls) (callsOn a calls')

/-- The call gives a field its value, whatever was called before, as long as no other call on its
attribute follows. -/
def Sets {α : Type} (call : κ) (field : σ → α) (value : α) : Prop :=
  ∀ (before after : List κ) (s : σ), (∀ later ∈ after, attributeOf later ≠ attributeOf call) →
    field (run (before ++ call :: after) s) = value

variable (κ σ) in
/-- Calls on different attributes do not affect each other. -/
structure Independent : Prop where
  unchanged : ∀ (call : κ) (s : σ), attributeOf call = none → Call.apply call s = s
  commute : ∀ (call call' : κ) (s : σ), attributeOf call ≠ attributeOf call' →
    Call.apply call (Call.apply call' s) = Call.apply call' (Call.apply call s)

variable (σ) in
/-- Two calls that do the same to the same attribute. -/
structure SameEffect (call call' : κ) : Prop where
  attributeOf : attributeOf call = attributeOf call'
  apply : ∀ s : σ, Call.apply call s = Call.apply call' s

namespace Independent

theorem run_unchanged (h : Independent κ σ) {calls : List κ}
    (hcalls : ∀ call ∈ calls, attributeOf call = none) (s : σ) : run calls s = s := by
  induction calls with
  | nil => rfl
  | cons call calls ih =>
    obtain ⟨hcall, hcalls⟩ := List.forall_mem_cons.mp hcalls
    change run calls (Call.apply call s) = s
    rw [h.unchanged call s hcall, ih hcalls]

/-- A call moves behind the calls on other attributes. -/
theorem run_apply (h : Independent κ σ) {call : κ} {calls : List κ}
    (hcalls : ∀ later ∈ calls, attributeOf later ≠ attributeOf call) (s : σ) :
    run calls (Call.apply call s) = Call.apply call (run calls s) := by
  induction calls generalizing s with
  | nil => rfl
  | cons later calls ih =>
    obtain ⟨hlater, hcalls⟩ := List.forall_mem_cons.mp hcalls
    change run calls (Call.apply later (Call.apply call s)) = _
    rw [h.commute later call s hlater]
    exact ih hcalls (Call.apply later s)

theorem sets {α : Type} (h : Independent κ σ) {call : κ} {field : σ → α} {value : α}
    (hvalue : ∀ s : σ, field (Call.apply call s) = value) : Sets call field value := by
  intro before after s hafter
  rw [run_append]
  change field (run after (Call.apply call (run before s))) = value
  rw [h.run_apply hafter, hvalue]

end Independent

section Order

variable [DecidableEq A]

theorem callsOn_append (a : A) (calls calls' : List κ) :
    callsOn a (calls ++ calls') = callsOn a calls ++ callsOn a calls' :=
  List.filter_append ..

theorem callsOn_cons_of_eq {a : A} {call : κ} (h : attributeOf call = some a) (calls : List κ) :
    callsOn a (call :: calls) = call :: callsOn a calls :=
  List.filter_cons_of_pos (by simpa using h)

theorem callsOn_cons_of_ne {a : A} {call : κ} (h : attributeOf call ≠ some a) (calls : List κ) :
    callsOn a (call :: calls) = callsOn a calls :=
  List.filter_cons_of_neg (by simpa using h)

theorem callsOn_eq_nil_iff {a : A} {calls : List κ} :
    callsOn a calls = [] ↔ ∀ call ∈ calls, attributeOf call ≠ some a := by
  simp [callsOn, List.filter_eq_nil_iff]

/-- The first call on an attribute, with the rest of the program around it. -/
theorem exists_of_callsOn_eq_cons {a : A} {call : κ} {calls rest : List κ}
    (h : callsOn a calls = call :: rest) : ∃ before after, calls = before ++ call :: after ∧
      attributeOf call = some a ∧ callsOn a before = [] ∧ callsOn a after = rest := by
  obtain ⟨before, after, rfl, hbefore, hcall, hafter⟩ := List.filter_eq_cons_iff.mp h
  refine ⟨before, after, rfl, by simpa using hcall, ?_, hafter⟩
  exact callsOn_eq_nil_iff.mpr fun call hmem => by simpa using hbefore call hmem

/-- Taking the first call on an attribute out of both programs leaves them interleaved. -/
theorem Interleaved.of_cons {R : κ → κ → Prop} {a : A} {call call' : κ}
    {calls before after : List κ} (h : Interleaved R (call :: calls) (before ++ call' :: after))
    (hcall : attributeOf call = some a) (hcall' : attributeOf call' = some a)
    (hbefore : callsOn a before = []) : Interleaved R calls (before ++ after) := by
  intro b
  have hb := h b
  rw [callsOn_append] at hb ⊢
  by_cases hba : b = a
  · subst hba
    rw [callsOn_cons_of_eq hcall, callsOn_cons_of_eq hcall', hbefore] at hb
    rw [hbefore]
    exact (List.forall₂_cons.mp hb).2
  · have hne : some a ≠ some b := fun hab => hba (Option.some.inj hab).symm
    rwa [callsOn_cons_of_ne (hcall ▸ hne), callsOn_cons_of_ne (hcall' ▸ hne)] at hb

/-- Only the order of the calls on each attribute matters. -/
theorem Independent.run_eq {R : κ → κ → Prop} (hindependent : Independent κ σ)
    (hsame : ∀ {call call'}, R call call' → SameEffect σ call call') {calls calls' : List κ}
    (h : Interleaved R calls calls') (s : σ) : run calls s = run calls' s := by
  induction calls generalizing calls' s with
  | nil =>
    have hnone : ∀ call ∈ calls', attributeOf call = none := by
      intro call hmem
      refine Option.eq_none_iff_forall_ne_some.mpr fun a => ?_
      exact callsOn_eq_nil_iff.mp (List.forall₂_nil_left_iff.mp (h a)) call hmem
    exact (hindependent.run_unchanged hnone s).symm
  | cons call calls ih =>
    change run calls (Call.apply call s) = run calls' s
    cases hcall : attributeOf call with
    | none =>
      have hrest : Interleaved R calls calls' := by
        intro a
        have ha := h a
        rwa [callsOn_cons_of_ne (by simp [hcall])] at ha
      rw [hindependent.unchanged call s hcall]
      exact ih hrest s
    | some a =>
      have ha := h a
      rw [callsOn_cons_of_eq hcall] at ha
      obtain ⟨call', rest, hR, -, hfirst⟩ := List.forall₂_cons_left_iff.mp ha
      obtain ⟨before, after, rfl, hcall', hbefore, -⟩ := exists_of_callsOn_eq_cons hfirst
      have hothers : ∀ other ∈ before, attributeOf other ≠ attributeOf call' :=
        hcall' ▸ callsOn_eq_nil_iff.mp hbefore
      calc run calls (Call.apply call s)
          = run (before ++ after) (Call.apply call s) := ih (h.of_cons hcall hcall' hbefore) _
        _ = run (before ++ after) (Call.apply call' s) := by rw [(hsame hR).apply]
        _ = run after (Call.apply call' (run before s)) := by
            rw [run_append, hindependent.run_apply hothers]
        _ = run (before ++ call' :: after) s := (run_append before (call' :: after) s).symm

end Order

end Programs

end SwiftManifest
