import SwiftManifest.Proofs.Text.Token

/-! A scan of manifest text as source code: where string literals begin and end, and what is left of
a text without their contents. -/

namespace SwiftManifest

/-- Where a scan stands: outside literals, in one, or behind a backslash in one. -/
inductive ScanMode where
  | outside | inside | escaping
  deriving DecidableEq, Repr

namespace ScanMode

def next : ScanMode → Char → ScanMode
  | .outside, c => if c = '"' then .inside else .outside
  | .inside, c => if c = '"' then .outside else if c = '\\' then .escaping else .inside
  | .escaping, _ => .inside

/-- Whether a character stays when the contents of literals are removed. The quotes do. -/
def keeps : ScanMode → Char → Bool
  | .outside, _ => true
  | .inside, c => c = '"'
  | .escaping, _ => false

end ScanMode

def scan (mode : ScanMode) (t : Text) : ScanMode := t.foldl ScanMode.next mode

def skeletonFrom : ScanMode → Text → Text
  | _, [] => []
  | mode, c :: cs =>
    (if mode.keeps c then [c] else []) ++ skeletonFrom (mode.next c) cs

/-- A text without the contents of its literals. -/
def skeleton (t : Text) : Text := skeletonFrom .outside t

@[simp] theorem scan_nil (mode : ScanMode) : scan mode [] = mode := rfl

@[simp] theorem scan_cons (mode : ScanMode) (c : Char) (cs : Text) :
    scan mode (c :: cs) = scan (mode.next c) cs := rfl

@[simp] theorem scan_append (mode : ScanMode) (t u : Text) :
    scan mode (t ++ u) = scan (scan mode t) u := List.foldl_append

theorem skeletonFrom_append (mode : ScanMode) (t u : Text) :
    skeletonFrom mode (t ++ u) = skeletonFrom mode t ++ skeletonFrom (scan mode t) u := by
  induction t generalizing mode with
  | nil => rfl
  | cons c cs ih => simp [skeletonFrom, ih]

theorem scan_escaped (c : Char) : scan .inside (escaped c) = .inside := by
  fun_cases escaped c with
  | case5 c hquote hslash => simp_all [ScanMode.next]
  | _ => rfl

theorem skeletonFrom_escaped (c : Char) : skeletonFrom .inside (escaped c) = [] := by
  fun_cases escaped c with
  | case5 c hquote hslash => simp_all [skeletonFrom, ScanMode.keeps]
  | _ => rfl

theorem scan_flatMap_escaped (value : Text) : scan .inside (value.flatMap escaped) = .inside := by
  induction value with
  | nil => rfl
  | cons c cs ih => rw [List.flatMap_cons, scan_append, scan_escaped, ih]

theorem skeletonFrom_flatMap_escaped (value : Text) :
    skeletonFrom .inside (value.flatMap escaped) = [] := by
  induction value with
  | nil => rfl
  | cons c cs ih =>
    rw [List.flatMap_cons, skeletonFrom_append, skeletonFrom_escaped, scan_escaped, ih,
      List.nil_append]

/-- A scan is behind a literal exactly at its end, whatever the literal contains. -/
theorem scan_quoted (value : Text) : scan .outside (quoted value) = .outside := by
  simp [quoted, ScanMode.next, scan_flatMap_escaped]

theorem skeletonFrom_quoted (value : Text) : skeletonFrom .outside (quoted value) = quoted [] := by
  simp [quoted, skeletonFrom, skeletonFrom_append, ScanMode.keeps, ScanMode.next,
    scan_flatMap_escaped, skeletonFrom_flatMap_escaped]

theorem scan_of_not_mem {t : Text} (h : '"' ∉ t) : scan .outside t = .outside := by
  induction t with
  | nil => rfl
  | cons c cs ih =>
    obtain ⟨hc, hcs⟩ : '"' ≠ c ∧ '"' ∉ cs := by simpa using h
    simp [ScanMode.next, hc.symm, ih hcs]

theorem skeletonFrom_of_not_mem {t : Text} (h : '"' ∉ t) : skeletonFrom .outside t = t := by
  induction t with
  | nil => rfl
  | cons c cs ih =>
    obtain ⟨hc, hcs⟩ : '"' ≠ c ∧ '"' ∉ cs := by simpa using h
    simp [skeletonFrom, ScanMode.keeps, ScanMode.next, hc.symm, ih hcs]

namespace Token

/-- A token without the contents of a literal. -/
def erased : Token → Token
  | .literal _ => .literal []
  | t => t

theorem quote_not_mem_text {t : Token} (ht : t.Plain) (hliteral : ∀ value, t ≠ .literal value) :
    '"' ∉ t.text := by
  cases t with
  | literal value => exact absurd rfl (hliteral value)
  | mark c =>
    intro h
    obtain rfl : '"' = c := by simpa [text] using h
    simp [Plain] at ht
  | feed depth => simp [text]

theorem scan_text {t : Token} (ht : t.Plain) : scan .outside t.text = .outside := by
  cases t with
  | literal value => exact scan_quoted value
  | _ => exact scan_of_not_mem (quote_not_mem_text ht (by simp))

theorem skeletonFrom_text {t : Token} (ht : t.Plain) :
    skeletonFrom .outside t.text = t.erased.text := by
  cases t with
  | literal value => exact skeletonFrom_quoted value
  | _ => exact skeletonFrom_of_not_mem (quote_not_mem_text ht (by simp))

end Token

theorem map_erased_marks (t : Text) : (marks t).map Token.erased = marks t := by
  simp [marks, Token.erased]

theorem scan_spell {ts : List Token} (hts : ∀ t ∈ ts, t.Plain) :
    scan .outside (spell ts) = .outside := by
  induction ts with
  | nil => rfl
  | cons t ts ih =>
    rcases List.forall_mem_cons.mp hts with ⟨ht, hrest⟩
    rw [spell_cons, scan_append, Token.scan_text ht, ih hrest]

theorem skeleton_spell {ts : List Token} (hts : ∀ t ∈ ts, t.Plain) :
    skeleton (spell ts) = spell (ts.map Token.erased) := by
  induction ts with
  | nil => rfl
  | cons t ts ih =>
    rcases List.forall_mem_cons.mp hts with ⟨ht, hrest⟩
    rw [spell_cons, skeleton, skeletonFrom_append, Token.skeletonFrom_text ht, Token.scan_text ht,
      List.map_cons, spell_cons]
    exact congrArg (t.erased.text ++ ·) (ih hrest)

end SwiftManifest
