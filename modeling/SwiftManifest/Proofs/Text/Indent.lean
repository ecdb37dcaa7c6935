import SwiftManifest.Proofs.Text.Block
import SwiftManifest.Proofs.Text.Token

/-! Indenting a block puts one tab in front of it and one behind each of its line feeds. For a block
of tokens that is one more tab for every line feed token; literals are not touched. -/

namespace SwiftManifest

def shifted : Char → Text
  | '\n' => ['\n', '\t']
  | c => [c]

theorem shifted_of_ne {c : Char} (h : c ≠ '\n') : shifted c = [c] := by
  fun_cases shifted c <;> simp_all

theorem flatMap_shifted {t : Text} (h : '\n' ∉ t) : t.flatMap shifted = t := by
  induction t with
  | nil => rfl
  | cons c cs ih =>
    obtain ⟨hc, hcs⟩ : '\n' ≠ c ∧ '\n' ∉ cs := by simpa using h
    rw [List.flatMap_cons, shifted_of_ne (Ne.symm hc), ih hcs, List.singleton_append]

theorem moved_eq_flatMap {t : Text} (hreturn : '\r' ∉ t) : moved t = t.flatMap shifted := by
  fun_induction moved t with
  | case1 => rfl
  | case2 cs ih => simp [ih (fun h => hreturn (List.mem_cons_of_mem _ h)), shifted]
  | case3 cs => simp at hreturn
  | case4 c cs hfeed _ ih =>
    rw [ih fun h => hreturn (List.mem_cons_of_mem _ h), List.flatMap_cons, shifted_of_ne hfeed,
      List.singleton_append]

namespace Token

theorem flatMap_shifted_text {t : Token} (ht : t.Plain) :
    t.text.flatMap shifted = t.deeper.text := by
  cases t with
  | literal value => exact flatMap_shifted (not_mem_quoted (.inl rfl))
  | mark c =>
    have hc : c ≠ '\n' := by
      rintro rfl
      simp [Plain] at ht
    simp [text, deeper, shifted_of_ne hc]
  | feed depth =>
    have htabs : (List.replicate depth '\t').flatMap shifted = List.replicate depth '\t' :=
      flatMap_shifted (by simp)
    simp [text, deeper, shifted, htabs, List.replicate_succ]

theorem return_not_mem_text {t : Token} (ht : t.Plain) : '\r' ∉ t.text := by
  cases t with
  | literal value => exact not_mem_quoted (.inr rfl)
  | mark c =>
    rintro h
    obtain rfl : '\r' = c := by simpa [text] using h
    simp [Plain] at ht
  | feed depth => simp [text]

theorem block_text {t : Token} (ht : t.Plain) (hfeed : t.isFeed = false) : Block t.text := by
  cases t with
  | literal value => exact .append_left (by decide) ('"' :: value.flatMap escaped)
  | mark c =>
    simp only [Plain, List.mem_cons, not_or] at ht
    exact ⟨c, rfl, by simp [ht]⟩
  | feed depth => simp [isFeed] at hfeed

end Token

theorem flatMap_shifted_spell {ts : List Token} (hts : ∀ t ∈ ts, t.Plain) :
    (spell ts).flatMap shifted = spell (ts.map Token.deeper) := by
  induction ts with
  | nil => rfl
  | cons t ts ih =>
    rcases List.forall_mem_cons.mp hts with ⟨ht, hrest⟩
    simp [Token.flatMap_shifted_text ht, ih hrest]

theorem return_not_mem_spell {ts : List Token} (hts : ∀ t ∈ ts, t.Plain) : '\r' ∉ spell ts := by
  intro h
  obtain ⟨t, ht, hmem⟩ := List.mem_flatMap.mp h
  exact Token.return_not_mem_text (hts t ht) hmem

theorem block_spell (ts : List Token) {t : Token} (ht : t.Plain) (hfeed : t.isFeed = false) :
    Block (spell (ts ++ [t])) := by
  simpa using (Token.block_text ht hfeed).append_left (spell ts)

theorem indent_spell {ts : List Token} (hts : ∀ t ∈ ts, t.Plain) (h : Block (spell ts)) :
    indent (spell ts) = '\t' :: spell (ts.map Token.deeper) := by
  rw [h.indent_eq, moved_eq_flatMap (return_not_mem_spell hts), flatMap_shifted_spell hts]

end SwiftManifest
