import SwiftManifest.Proofs.Text.Block
import Mathlib.Logic.Function.Iterate

/-! Frames: texts with a place for one block, which stands on lines of its own at a fixed depth. Lists
and calls are frames around each of their entries, and frames inside frames are frames again. -/

namespace SwiftManifest

namespace Block

variable {t u v : Text}

theorem iterate_indent (h : Block t) (n : Nat) : Block (indent^[n] t) := by
  induction n with
  | zero => exact h
  | succ n ih =>
    rw [Function.iterate_succ_apply']
    exact ih.block_indent

theorem iterate_moved (h : Block t) (n : Nat) : Block (moved^[n] t) := by
  induction n with
  | zero => exact h
  | succ n ih =>
    rw [Function.iterate_succ_apply']
    exact ih.block_moved

/-- A block on lines of its own is indented without regard to what is in front of it and behind. -/
theorem indent_around (ht : Block t) (hu : Block u) (hv : Block v) :
    indent (t ++ '\n' :: (u ++ v)) =
      indent t ++ '\n' :: (indent u ++ moved v) := by
  have hrest : Block (u ++ v) := hv.append_left u
  rw [ht.indent_append ((hrest.cons '\n').append_left t), moved, hu.moved_append,
    hu.indent_eq, List.cons_append]

theorem iterate_indent_around (ht : Block t) (hu : Block u) (hv : Block v) (n : Nat) :
    indent^[n] (t ++ '\n' :: (u ++ v)) =
      indent^[n] t ++
        '\n' :: (indent^[n] u ++ moved^[n] v) := by
  induction n with
  | zero => rfl
  | succ n ih =>
    simp only [Function.iterate_succ_apply']
    rw [ih, (ht.iterate_indent n).indent_around (hu.iterate_indent n) (hv.iterate_moved n)]

end Block

structure Frame where
  before : Text
  after : Text
  depth : Nat
  block_before : Block before
  block_after : Block after

namespace Frame

def fill (f : Frame) (t : Text) : Text :=
  f.before ++ '\n' :: (indent^[f.depth] t ++ f.after)

/-- A label in front of a frame. -/
def labeled (label : Text) (f : Frame) : Frame where
  before := labeledText label f.before
  after := f.after
  depth := f.depth
  block_before := ((f.block_before.cons ' ').cons ':').append_left label
  block_after := f.block_after

theorem fill_labeled (label : Text) (f : Frame) (t : Text) :
    (f.labeled label).fill t = labeledText label (f.fill t) := by
  simp [fill, labeled, labeledText]

/-- The inner frame is moved to the depth of the outer one. -/
def comp (f g : Frame) : Frame where
  before := f.before ++ '\n' :: indent^[f.depth] g.before
  after := moved^[f.depth] g.after ++ f.after
  depth := f.depth + g.depth
  block_before := ((g.block_before.iterate_indent f.depth).cons '\n').append_left f.before
  block_after := f.block_after.append_left _

theorem fill_comp (f g : Frame) {t : Text} (ht : Block t) :
    (f.comp g).fill t = f.fill (g.fill t) := by
  have hinner := g.block_before.iterate_indent_around (ht.iterate_indent g.depth) g.block_after
    f.depth
  simp only [fill, comp, hinner, Function.iterate_add_apply, List.append_assoc, List.cons_append]

end Frame

/-- The text around one of several entries. -/
theorem feed_joined (front : List Text) (t : Text) (back : List Text) :
    '\n' :: joined ",\n" (front ++ t :: back) =
      (front.flatMap fun e => '\n' :: e ++ [',']) ++
        '\n' :: (t ++ back.flatMap (",\n".toList ++ ·)) := by
  induction front with
  | nil => rw [List.nil_append, joined_cons, List.flatMap_nil, List.nil_append]
  | cons e es ih =>
    have hcons : joined ",\n" (e :: (es ++ t :: back)) =
        e ++ ',' :: '\n' :: joined ",\n" (es ++ t :: back) :=
      joined_cons_of_ne_nil ",\n" e (by simp)
    rw [List.cons_append, hcons, ih]
    simp

namespace Frame

/-- The place of one entry among others between brackets. -/
def entry (opening : Text) (close : Char) (hopening : Block opening) (hclose : close ∉ ['\n', '\r'])
    (front back : List Text) : Frame where
  before := opening ++ front.flatMap fun e => '\n' :: indent e ++ [',']
  after := back.flatMap (fun e => ",\n".toList ++ indent e) ++ ['\n', close]
  depth := 1
  block_before := hopening.append_flatMap fun e _ =>
    (show Block [','] by decide).append_left ('\n' :: indent e)
  block_after := .append_left ⟨close, rfl, hclose⟩ _

theorem fill_entry (opening : Text) (close : Char) (hopening : Block opening)
    (hclose : close ∉ ['\n', '\r']) (front back : List Text) (t : Text) :
    (entry opening close hopening hclose front back).fill t =
      opening ++ '\n' :: joined ",\n" ((front ++ t :: back).map indent) ++ ['\n', close] := by
  rw [List.map_append, List.map_cons, feed_joined]
  simp [fill, entry, List.flatMap_map]

def listEntry (front back : List Text) : Frame :=
  entry ['['] ']' (by decide) (by decide) front back

def argument (keyword : Text) (front back : List Text) : Frame :=
  entry (keyword ++ ['(']) ')' (.append_left (by decide) keyword) (by decide) front back

variable {front back : List Text} {t : Text}

theorem fill_listEntry (h : ∀ e ∈ front ++ t :: back, Block e) :
    (listEntry front back).fill t = bracketedList (front ++ t :: back) := by
  rw [listEntry, fill_entry, bracketedList_of_blocks (by simp) h]
  rfl

theorem fill_argument (keyword : Text) (h : ∀ e ∈ front ++ t :: back, Block e) :
    (argument keyword front back).fill t = callText keyword (front ++ t :: back) := by
  rw [argument, fill_entry, callText_of_blocks keyword (by simp) h]
  simp

end Frame

end SwiftManifest
