import SwiftManifest.Proofs.Text.Indent
import SwiftManifest.Proofs.Text.Lines

/-! Indentation against nesting. A line that ends in an opening bracket puts the next one a tab
further right, a line that begins with a closing bracket stands a tab further left. A machine that
reads a text character by character checks all its lines for that. -/

namespace SwiftManifest

def isOpening (c : Char) : Bool := c = '(' || c = '['

def isClosing (c : Char) : Bool := c = ')' || c = ']'

/-- Printing characters of ASCII except the space. -/
def visible (c : Char) : Bool := '!' ≤ c && c ≤ '~'

/-- A line in which nothing is to be seen, such as one of white space only. -/
def blankLine (line : Text) : Bool := line.all (! visible ·)

def opensBlock (line : Text) : Bool := line.getLast?.any isOpening

/-- Whether the first character of a line behind its tabs closes a bracket. -/
def closesBlock (line : Text) : Bool := (line.find? (· ≠ '\t')).any isClosing

/-- The depth of a line behind others: one more for each line before it that opens a block, one less
for each line up to it that closes one. -/
def lineDepth (before : List Text) (line : Text) : Int :=
  before.countP opensBlock - (before ++ [line]).countP closesBlock

structure IndentedByNesting (ls : List Text) : Prop where
  depth_nonneg : ∀ before line after, ls = before ++ line :: after → 0 ≤ lineDepth before line
  indented : ∀ before line after, ls = before ++ line :: after → (∃ c ∈ line, c ≠ '\t') →
    ∃ c rest, c ≠ '\t' ∧ line = List.replicate (lineDepth before line).toNat '\t' ++ c :: rest
  closed : ls.countP opensBlock = ls.countP closesBlock

/-- Where the machine stands: behind the tabs that begin a line, at the depth that the lines before
lead to; or further on in a line of some depth, perhaps right behind an opening bracket. It counts
the blank lines that it has read. -/
inductive LineState where
  | fresh (blanks depth tabs : Nat)
  | within (blanks depth : Nat) (opened : Bool)
  deriving DecidableEq, Repr

namespace LineState

def depth : LineState → Nat
  | .fresh _ depth _ | .within _ depth _ => depth

def next : LineState → Char → Option LineState
  | .fresh blanks depth tabs, c =>
    if c = '\t' then some (.fresh blanks depth (tabs + 1))
    else if c = '\n' then some (.fresh (blanks + 1) depth 0)
    else if isClosing c then if depth = tabs + 1 then some (.within blanks tabs false) else none
    else if visible c ∧ depth = tabs then some (.within blanks tabs (isOpening c)) else none
  | .within blanks depth opened, c =>
    if c = '\n' then some (.fresh blanks (if opened then depth + 1 else depth) 0)
    else some (.within blanks depth (isOpening c))

theorem next_feed {s s' : LineState} (h : s.next '\n' = some s') :
    ∃ blanks depth, s' = .fresh blanks depth 0 := by
  cases s with
  | fresh blanks depth tabs => exact ⟨blanks + 1, depth, (Option.some.inj h).symm⟩
  | within blanks depth opened => exact ⟨blanks, _, (Option.some.inj h).symm⟩

def run (s : LineState) (t : Text) : Option LineState := t.foldlM next s

@[simp] theorem run_nil (s : LineState) : s.run [] = some s := rfl

theorem run_cons (s : LineState) (c : Char) (cs : Text) :
    s.run (c :: cs) = (s.next c).bind (·.run cs) := rfl

theorem run_append (s : LineState) (t u : Text) : s.run (t ++ u) = (s.run t).bind (·.run u) :=
  List.foldlM_append

end LineState

/-- What a state says about the part of a line that is read, where the lines before lead to
`depth` and `blanks` of them are blank. -/
inductive LineAt (blanks depth : Nat) : Text → LineState → Prop
  | tabs (n : Nat) : LineAt blanks depth (List.replicate n '\t') (.fresh blanks depth n)
  | entry {c : Char} (rest : Text) : visible c → isClosing c = false →
      LineAt blanks depth (List.replicate depth '\t' ++ c :: rest)
        (.within blanks depth (opensBlock (c :: rest)))
  | closing {c : Char} {tabs : Nat} (rest : Text) : isClosing c → depth = tabs + 1 →
      LineAt blanks depth (List.replicate tabs '\t' ++ c :: rest)
        (.within blanks tabs (opensBlock (c :: rest)))

/-- Lines that lead from one depth and number of blank lines to another. -/
inductive Nested : Nat → Nat → List Text → Nat → Nat → Prop
  | last {blanks depth total final : Nat} {line : Text} :
      LineAt blanks depth line (.within total final false) → Nested blanks depth [line] total final
  | cons {blanks depth blanks' depth' total final : Nat} {line : Text} {ls : List Text}
      {s : LineState} : LineAt blanks depth line s → s.next '\n' = some (.fresh blanks' depth' 0) →
      Nested blanks' depth' ls total final → Nested blanks depth (line :: ls) total final

theorem visible_of_isClosing {c : Char} (h : isClosing c) : visible c := by
  obtain rfl | rfl : c = ')' ∨ c = ']' := by simpa [isClosing] using h
  all_goals rfl

theorem ne_tab_of_visible {c : Char} (h : visible c) : c ≠ '\t' := by
  rintro rfl
  exact absurd h (by decide)

theorem opensBlock_tabs (n : Nat) : opensBlock (List.replicate n '\t') = false := by
  cases n <;> simp [opensBlock, List.getLast?_replicate, isOpening]

theorem opensBlock_append (t : Text) (c : Char) (rest : Text) :
    opensBlock (t ++ c :: rest) = opensBlock (c :: rest) := by
  simp [opensBlock, List.getLast?_append, List.getLast?_cons]

theorem opensBlock_concat (t : Text) (c : Char) : opensBlock (t ++ [c]) = isOpening c := by
  simp [opensBlock]

theorem blankLine_tabs (n : Nat) : blankLine (List.replicate n '\t') := by
  simp [blankLine, visible]

theorem blankLine_append {t : Text} {c : Char} {rest : Text} (hc : visible c) :
    blankLine (t ++ c :: rest) = false := by
  simp [blankLine, hc]

theorem closesBlock_tabs (n : Nat) : closesBlock (List.replicate n '\t') = false := by
  simp [closesBlock]

theorem closesBlock_behind_tabs {c : Char} (hc : c ≠ '\t') (n : Nat) (rest : Text) :
    closesBlock (List.replicate n '\t' ++ c :: rest) = isClosing c := by
  simp [closesBlock, List.find?_append, hc]

namespace LineAt

variable {blanks depth : Nat} {line : Text} {s s' : LineState}

/-- Reading on in a line. -/
theorem step {c : Char} (h : LineAt blanks depth line s) (hc : c ≠ '\n')
    (hnext : s.next c = some s') : LineAt blanks depth (line ++ [c]) s' := by
  cases h with
  | tabs n =>
    by_cases htab : c = '\t'
    · obtain rfl : .fresh blanks depth (n + 1) = s' := by simpa [LineState.next, htab] using hnext
      rw [htab, ← List.replicate_succ']
      exact .tabs (n + 1)
    · by_cases hclosing : isClosing c
      · obtain ⟨hdepth, rfl⟩ : depth = n + 1 ∧ .within blanks n false = s' := by
          simpa [LineState.next, htab, hc, hclosing] using hnext
        have hopens : opensBlock [c] = false := by
          obtain rfl | rfl : c = ')' ∨ c = ']' := by simpa [isClosing] using hclosing
          all_goals rfl
        rw [← hopens]
        exact .closing [] hclosing hdepth
      · obtain ⟨⟨hvisible, rfl⟩, rfl⟩ :
            (visible c ∧ depth = n) ∧ .within blanks n (isOpening c) = s' := by
          simpa [LineState.next, htab, hc, hclosing] using hnext
        exact .entry [] hvisible (by simpa using hclosing)
  | @entry d rest hvisible hclosing =>
    obtain rfl : .within blanks depth (isOpening c) = s' := by
      simpa [LineState.next, hc] using hnext
    rw [← opensBlock_concat (d :: rest), List.append_assoc]
    exact .entry (rest ++ [c]) hvisible hclosing
  | @closing d tabs rest hclosing hdepth =>
    obtain rfl : .within blanks tabs (isOpening c) = s' := by
      simpa [LineState.next, hc] using hnext
    rw [← opensBlock_concat (d :: rest), List.append_assoc]
    exact .closing (rest ++ [c]) hclosing hdepth

theorem run {t : Text} (h : LineAt blanks depth line s) (ht : '\n' ∉ t)
    (hrun : s.run t = some s') : LineAt blanks depth (line ++ t) s' := by
  induction t generalizing line s with
  | nil =>
    obtain rfl : s = s' := by simpa using hrun
    simpa using h
  | cons c cs ih =>
    obtain ⟨hc, hcs⟩ : '\n' ≠ c ∧ '\n' ∉ cs := by simpa using ht
    obtain ⟨s'', hnext, hrest⟩ := Option.bind_eq_some_iff.mp hrun
    simpa using ih (h.step hc.symm hnext) hcs hrest

theorem depth_eq (h : LineAt blanks depth line s) :
    depth = s.depth + (if closesBlock line then 1 else 0) := by
  cases h with
  | tabs n => simp [closesBlock_tabs, LineState.depth]
  | entry rest hvisible hclosing =>
    simp [closesBlock_behind_tabs (ne_tab_of_visible hvisible), hclosing, LineState.depth]
  | closing rest hclosing hdepth =>
    have hvisible := visible_of_isClosing hclosing
    simp [closesBlock_behind_tabs (ne_tab_of_visible hvisible), hclosing, hdepth, LineState.depth]

/-- The last line opens nothing and is not blank. -/
theorem within_eq {total final : Nat} {opened : Bool}
    (h : LineAt blanks depth line (.within total final opened)) :
    opensBlock line = opened ∧ total = blanks ∧ blankLine line = false := by
  cases h with
  | entry rest hvisible _ => exact ⟨opensBlock_append _ _ rest, rfl, blankLine_append hvisible⟩
  | closing rest hclosing _ =>
    exact ⟨opensBlock_append _ _ rest, rfl, blankLine_append (visible_of_isClosing hclosing)⟩

/-- What a line leads to. -/
theorem following_eq {blanks' depth' : Nat} (h : LineAt blanks depth line s)
    (hnext : s.next '\n' = some (.fresh blanks' depth' 0)) :
    depth' = s.depth + (if opensBlock line then 1 else 0) ∧
      blanks' = blanks + (if blankLine line then 1 else 0) := by
  cases s with
  | fresh b d tabs =>
    obtain ⟨rfl, rfl⟩ : b + 1 = blanks' ∧ d = depth' := by simpa [LineState.next] using hnext
    cases h with
    | tabs n => simp [opensBlock_tabs, blankLine_tabs, LineState.depth]
  | within b d opened =>
    rcases h.within_eq with ⟨hopens, rfl, hblank⟩
    obtain ⟨rfl, rfl⟩ : b = blanks' ∧ (if opened then d + 1 else d) = depth' := by
      simpa [LineState.next] using hnext
    rw [hopens, hblank]
    cases opened <;> simp [LineState.depth]

theorem eq_replicate (h : LineAt blanks depth line s) (hline : ∃ c ∈ line, c ≠ '\t') :
    ∃ c rest, c ≠ '\t' ∧ line = List.replicate s.depth '\t' ++ c :: rest := by
  cases h with
  | tabs n =>
    rcases hline with ⟨c, hc, hne⟩
    exact absurd (List.eq_of_mem_replicate hc) hne
  | entry rest hvisible => exact ⟨_, rest, ne_tab_of_visible hvisible, rfl⟩
  | closing rest hclosing =>
    exact ⟨_, rest, ne_tab_of_visible (visible_of_isClosing hclosing), rfl⟩

end LineAt

namespace Nested

variable {blanks depth total final : Nat} {ls : List Text}

theorem count_eq (h : Nested blanks depth ls total final) :
    depth + ls.countP opensBlock = final + ls.countP closesBlock ∧
      blanks + ls.countP blankLine = total := by
  induction h with
  | last hline =>
    have hdepth := hline.depth_eq
    rcases hline.within_eq with ⟨hopens, rfl, hblank⟩
    simp only [LineState.depth] at hdepth
    simp [List.countP_cons, hopens, hblank, hdepth]
  | cons hline hnext _ ih =>
    have hdepth := hline.depth_eq
    obtain ⟨hdepth', hblanks'⟩ := hline.following_eq hnext
    rw [List.countP_cons, List.countP_cons, List.countP_cons]
    omega

/-- What holds at a line in the midst of others. -/
theorem lineAt {before after : List Text} {line : Text}
    (h : Nested blanks depth (before ++ line :: after) total final) :
    ∃ b d s, LineAt b d line s ∧
      depth + before.countP opensBlock = d + before.countP closesBlock := by
  induction before generalizing blanks depth with
  | nil =>
    cases h with
    | last hline => exact ⟨_, _, _, hline, rfl⟩
    | cons hline => exact ⟨_, _, _, hline, rfl⟩
  | cons l ls ih =>
    rw [List.cons_append] at h
    generalize hls : ls ++ line :: after = rest at h
    cases h with
    | last => simp at hls
    | cons hline hnext hrest =>
      subst hls
      obtain ⟨b, d, s, hat, hcount⟩ := ih hrest
      have hdepth := hline.depth_eq
      obtain ⟨hdepth', -⟩ := hline.following_eq hnext
      refine ⟨b, d, s, hat, ?_⟩
      rw [List.countP_cons, List.countP_cons]
      omega

theorem lineDepth_eq {before after : List Text} {line : Text}
    (h : Nested blanks 0 (before ++ line :: after) total final) :
    ∃ b d s, LineAt b d line s ∧ lineDepth before line = s.depth := by
  rcases h.lineAt with ⟨b, d, s, hat, hcount⟩
  have hdepth := hat.depth_eq
  refine ⟨b, d, s, hat, ?_⟩
  rw [lineDepth, List.countP_append, List.countP_singleton]
  omega

theorem indentedByNesting (h : Nested blanks 0 ls total 0) : IndentedByNesting ls where
  depth_nonneg := by
    rintro before line after rfl
    rcases h.lineDepth_eq with ⟨b, d, s, -, hdepth⟩
    omega
  indented := by
    rintro before line after rfl hline
    rcases h.lineDepth_eq with ⟨b, d, s, hat, hdepth⟩
    rw [hdepth]
    exact hat.eq_replicate hline
  closed := by simpa using h.count_eq.1

end Nested

section Lines

variable {blanks depth total final : Nat}

theorem nested_of_run {ls : List Text} (hne : ls ≠ []) (hls : ∀ line ∈ ls, '\n' ∉ line)
    (h : (LineState.fresh blanks depth 0).run (joined "\n" ls) = some (.within total final false)) :
    Nested blanks depth ls total final := by
  induction ls generalizing blanks depth with
  | nil => exact absurd rfl hne
  | cons l ls ih =>
    rcases List.forall_mem_cons.mp hls with ⟨hl, hrest⟩
    have hstart : LineAt blanks depth [] (.fresh blanks depth 0) := .tabs 0
    cases ls with
    | nil =>
      rw [joined, List.intercalate_singleton] at h
      exact .last (hstart.run hl h)
    | cons l' ls =>
      rw [joined_feed_cons (List.cons_ne_nil l' ls), LineState.run_append] at h
      obtain ⟨s, hline, h⟩ := Option.bind_eq_some_iff.mp h
      obtain ⟨s', hnext, h⟩ := Option.bind_eq_some_iff.mp h
      obtain ⟨blanks', depth', rfl⟩ := LineState.next_feed hnext
      exact .cons (hstart.run hl hline) hnext (ih (List.cons_ne_nil l' ls) hrest h)

theorem nested_lines {t : Text} (hreturn : '\r' ∉ t) (hlast : t.getLast? ≠ some '\n')
    (h : (LineState.fresh 0 0 0).run t = some (.within total final false)) :
    Nested 0 0 (lines t) total final := by
  have hne : lines t ≠ [] := by
    rw [ne_eq, lines_eq_nil_iff]
    rintro rfl
    simp at h
  rw [← joined_lines_eq_iff.mpr (.of_return_not_mem hreturn hlast)] at h
  exact nested_of_run hne (feed_not_mem_lines t) h

end Lines

end SwiftManifest
