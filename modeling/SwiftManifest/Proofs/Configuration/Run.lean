import SwiftManifest.Configuration.Package

/-! Runs of configuration calls. What every call keeps, a run keeps; calls on a part of a state run
on the part; and a run on a list appends what each addition makes. -/

namespace SwiftManifest

section Running

variable {κ σ : Type} [Call κ σ]

theorem run_append (calls calls' : List κ) (s : σ) :
    run (calls ++ calls') s = run calls' (run calls s) :=
  List.foldl_append

theorem run_preserves {P : σ → Prop} (hstep : ∀ (call : κ) s, P s → P (Call.apply call s))
    (calls : List κ) {s : σ} (h : P s) : P (run calls s) := by
  induction calls generalizing s with
  | nil => exact h
  | cons call calls ih => exact ih (hstep call s h)

/-- Calls that only act on a part of a state. -/
theorem run_map {κ' σ' : Type} [Call κ' σ'] {f : κ → κ'} {g : σ → σ'}
    (h : ∀ call s, Call.apply (f call) (g s) = g (Call.apply call s)) (calls : List κ) (s : σ) :
    run (calls.map f) (g s) = g (run calls s) := by
  induction calls generalizing s with
  | nil => rfl
  | cons call calls ih =>
    change run (calls.map f) (Call.apply (f call) (g s)) = g (run calls (Call.apply call s))
    rw [h, ih]

/-- Some calls lead from one state to the other. -/
def Reaches (κ : Type) {σ : Type} [Call κ σ] (s s' : σ) : Prop :=
  ∃ calls : List κ, run calls s = s'

namespace Reaches

variable {s s' s'' : σ}

theorem refl (s : σ) : Reaches κ s s := ⟨[], rfl⟩

theorem single (call : κ) (h : Call.apply call s = s') : Reaches κ s s' := ⟨[call], h⟩

theorem trans (h : Reaches κ s s') (h' : Reaches κ s' s'') : Reaches κ s s'' := by
  obtain ⟨calls, rfl⟩ := h
  obtain ⟨calls', rfl⟩ := h'
  exact ⟨calls ++ calls', run_append calls calls' s⟩

theorem lift {κ' σ' : Type} [Call κ' σ'] (h : Reaches κ s s') (f : κ → κ') (g : σ → σ')
    (hfg : ∀ call s, Call.apply (f call) (g s) = g (Call.apply call s)) :
    Reaches κ' (g s) (g s') := by
  obtain ⟨calls, rfl⟩ := h
  exact ⟨calls.map f, run_map hfg calls s⟩

/-- One call sets a field that is missing, none leaves it so. -/
theorem option {β : Type} (call : β → κ) (set : Option β → σ)
    (hset : ∀ b, Call.apply (call b) (set none) = set (some b)) (o : Option β) :
    Reaches κ (set none) (set o) := by
  cases o with
  | none => exact refl (set none)
  | some b => exact single (call b) (hset b)

end Reaches

end Running

section Lists

variable {α β μ : Type} [Start β α] [Call μ α]

theorem changeLast_append (f : α → α) (as : List α) (a : α) :
    changeLast f (as ++ [a]) = as ++ [f a] := by
  induction as with
  | nil => rfl
  | cons b as ih =>
    cases as with
    | nil => rfl
    | cons c as => exact congrArg (b :: ·) ih

/-- The node of an addition when all its changes are made. -/
def Addition.node (addition : Addition β μ) : α :=
  run addition.changes (Start.node addition.start)

/-- A handle that offers no calls leaves the node as it starts. -/
theorem Addition.node_eq (addition : Addition β Empty) :
    addition.node = Start.node addition.start := by
  rcases addition with ⟨start, _ | ⟨call, _⟩⟩
  · rfl
  · cases call

theorem apply_addition (addition : Addition β μ) (nodes : List α) :
    Call.apply addition nodes = nodes ++ [addition.node] := by
  have hchanges : ∀ (changes : List μ) (a : α),
      changes.foldl (fun nodes change => changeLast (Call.apply change) nodes) (nodes ++ [a]) =
        nodes ++ [run changes a] := by
    intro changes
    induction changes with
    | nil => exact fun a => rfl
    | cons change changes ih =>
      intro a
      rw [List.foldl_cons, changeLast_append]
      exact ih (Call.apply change a)
  exact hchanges addition.changes (Start.node addition.start)

theorem run_additions (additions : List (Addition β μ)) (nodes : List α) :
    run additions nodes = nodes ++ additions.map Addition.node := by
  induction additions generalizing nodes with
  | nil => exact (List.append_nil nodes).symm
  | cons addition additions ih =>
    change run additions (Call.apply addition nodes) = _
    rw [ih, apply_addition, List.append_assoc]
    rfl

/-- Additions that make the same nodes are as good as each other. -/
theorem run_additions_congr {additions additions' : List (Addition β μ)}
    (h : additions.map Addition.node = additions'.map Addition.node) (nodes : List α) :
    run additions nodes = run additions' nodes := by
  rw [run_additions, run_additions, h]

/-- A run on a list keeps what holds of its nodes if every addition makes such a node. -/
theorem forall_mem_run {P : α → Prop} (hnode : ∀ addition : Addition β μ, P addition.node)
    (additions : List (Addition β μ)) {nodes : List α} (h : ∀ a ∈ nodes, P a) :
    ∀ a ∈ run additions nodes, P a := by
  rw [run_additions, List.forall_mem_append, List.forall_mem_map]
  exact ⟨h, fun addition _ => hnode addition⟩

variable (β μ) in
/-- A node that some addition appends. -/
def Made (a : α) : Prop := ∃ addition : Addition β μ, addition.node = a

theorem Made.start {a : α} (start : β) (h : Reaches μ (Start.node start) a) : Made β μ a := by
  obtain ⟨changes, rfl⟩ := h
  exact ⟨{ start, changes }, rfl⟩

/-- A node that an addition appends without changes. -/
theorem Made.unchanged {a : α} (start : β) (h : Start.node start = a) : Made β μ a :=
  ⟨{ start }, h⟩

theorem exists_additions {as : List α} (h : ∀ a ∈ as, Made β μ a) :
    ∃ additions : List (Addition β μ), run additions ([] : List α) = as := by
  induction as with
  | nil => exact ⟨[], rfl⟩
  | cons a as ih =>
    obtain ⟨ha, has⟩ := List.forall_mem_cons.mp h
    obtain ⟨addition, rfl⟩ := ha
    obtain ⟨additions, rfl⟩ := ih has
    refine ⟨addition :: additions, ?_⟩
    rw [run_additions, run_additions]
    rfl

/-- One call fills a list that is empty. -/
theorem Reaches.list {κ σ : Type} [Call κ σ] (call : List (Addition β μ) → κ) (set : List α → σ)
    (hset : ∀ additions, Call.apply (call additions) (set []) = set (run additions []))
    {as : List α} (h : ∀ a ∈ as, Made β μ a) : Reaches κ (set []) (set as) := by
  obtain ⟨additions, rfl⟩ := exists_additions h
  exact single (call additions) (hset additions)

end Lists

/-- The package under construction is the one that the calls lead to. -/
theorem Construction.package_ofCalls (p : Package) (calls : List PackageCall) :
    (Construction.ofCalls p calls).package = run calls p := by
  have hsteps : ∀ c : Construction, (calls.foldl step c).package = run calls c.package := by
    induction calls with
    | nil => exact fun c => rfl
    | cons call calls ih => exact fun c => ih (step c call)
  exact hsteps { package := p }

end SwiftManifest
