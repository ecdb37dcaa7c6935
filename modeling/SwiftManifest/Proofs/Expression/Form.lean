import SwiftManifest.Proofs.Text.Token

/-! What a text of brackets, commas and labels says, whatever its layout, and how it is read: the
tokens of a form belong to no other form. -/

namespace SwiftManifest

inductive Form where
  | atom (tokens : List Token)
  | list (entries : List Form)
  | call (keyword : String) (arguments : List Form)
  | labeled (label : String) (value : Form)

namespace Form

section Induction

variable {motive : Form → Prop}
  (atom : ∀ tokens, motive (.atom tokens))
  (list : ∀ entries, (∀ f ∈ entries, motive f) → motive (.list entries))
  (call : ∀ keyword arguments, (∀ f ∈ arguments, motive f) → motive (.call keyword arguments))
  (labeled : ∀ label value, motive value → motive (.labeled label value))

include atom list call labeled

@[induction_eliminator]
theorem induct (f : Form) : motive f :=
  @Form.rec motive (fun fs => ∀ f ∈ fs, motive f) atom list call labeled (by simp)
    (fun _ _ hf hfs => by simpa using ⟨hf, hfs⟩) f

end Induction

/-- Brackets, commas and colons separate the parts of a form. -/
def separators : List Char := ['(', ')', '[', ']', ',', ':']

/-- Tokens without separators. -/
def Solid (ts : List Token) : Prop :=
  ∀ c ∈ separators, Token.mark c ∉ ts

inductive Readable : Form → Prop
  | atom {ts : List Token} : ts ≠ [] → Solid ts → Readable (.atom ts)
  | list {entries : List Form} : (∀ f ∈ entries, Readable f) → Readable (.list entries)
  | call {keyword : String} {arguments : List Form} :
    Solid (marks keyword.toList) → (∀ f ∈ arguments, Readable f) →
      Readable (.call keyword arguments)
  | labeled {label : String} {value : Form} :
    Solid (marks label.toList) → Readable value → Readable (.labeled label value)

mutual
def spine : Form → List Token
  | .atom ts => ts
  | .list entries => .mark '[' :: spineAll entries ++ [.mark ']']
  | .call keyword arguments =>
    marks keyword.toList ++ .mark '(' :: spineAll arguments ++ [.mark ')']
  | .labeled label value => marks label.toList ++ .mark ':' :: spine value

/-- Entries with commas between them. -/
def spineAll : List Form → List Token
  | [] => []
  | [f] => spine f
  | f :: g :: fs => spine f ++ .mark ',' :: spineAll (g :: fs)
end

theorem spineAll_eq_intercalate (fs : List Form) :
    spineAll fs = [Token.mark ','].intercalate (fs.map spine) := by
  induction fs with
  | nil => rfl
  | cons f fs ih => cases fs <;> simp_all [spineAll]

/-- The part of the spine in front of the first separator. -/
def head : Form → List Token
  | .atom ts => ts
  | .list _ => []
  | .call keyword _ => marks keyword.toList
  | .labeled label _ => marks label.toList

def tail : Form → List Token
  | .atom _ => []
  | .list entries => .mark '[' :: spineAll entries ++ [.mark ']']
  | .call _ arguments => .mark '(' :: spineAll arguments ++ [.mark ')']
  | .labeled _ value => .mark ':' :: spine value

theorem spine_eq (f : Form) : f.spine = f.head ++ f.tail := by
  cases f <;> simp [spine, head, tail]

theorem Readable.solid_head {f : Form} (h : f.Readable) : Solid f.head := by
  cases h with
  | atom _ hsolid => exact hsolid
  | list _ => simp [Solid, head]
  | call hsolid _ => exact hsolid
  | labeled hsolid _ => exact hsolid

/-- What can follow an entry. -/
inductive Follows : List Token → Prop
  | mk {c : Char} (rest : List Token) : c ∈ [',', ')', ']'] → Follows (.mark c :: rest)

theorem solid_append_inj {ts us : List Token} (hts : Solid ts) (hus : Solid us) {c d : Char}
    (hc : c ∈ separators) (hd : d ∈ separators) {r r' : List Token}
    (h : ts ++ .mark c :: r = us ++ .mark d :: r') :
    ts = us ∧ Token.mark c :: r = .mark d :: r' := by
  induction ts generalizing us with
  | nil =>
    cases us with
    | nil => exact ⟨rfl, h⟩
    | cons u us =>
      obtain ⟨rfl, -⟩ := List.cons.inj h
      exact absurd List.mem_cons_self (hus c hc)
  | cons t ts ih =>
    cases us with
    | nil =>
      obtain ⟨rfl, -⟩ := List.cons.inj h
      exact absurd List.mem_cons_self (hts d hd)
    | cons u us =>
      obtain ⟨rfl, hrest⟩ := List.cons.inj h
      have htail := ih (fun e he hmem => hts e he (List.mem_cons_of_mem _ hmem))
        (fun e he hmem => hus e he (List.mem_cons_of_mem _ hmem)) hrest
      exact ⟨congrArg (t :: ·) htail.1, htail.2⟩

theorem opening_separators : ∀ c ∈ ['(', '[', ':'], c ∈ separators := by decide

theorem closing_separators : ∀ c ∈ [')', ']'], c ∈ separators ∧ c ∉ ['(', '[', ':', ','] := by
  decide

theorem Follows.ne_opening {r : List Token} (h : Follows r) {c : Char} (hc : c ∈ ['(', '[', ':'])
    (rest : List Token) : r ≠ .mark c :: rest := by
  have hfollow : ∀ d ∈ [',', ')', ']'], d ∉ ['(', '[', ':'] := by decide
  rintro rfl
  rcases h with ⟨_, hd⟩
  exact hfollow c hd hc

/-- Whatever is not an atom opens something behind its head. -/
theorem tail_cases (f : Form) :
    (∃ ts, f = .atom ts) ∨ ∃ c rest, c ∈ ['(', '[', ':'] ∧ f.tail = .mark c :: rest := by
  cases f with
  | atom ts => exact .inl ⟨ts, rfl⟩
  | list entries => exact .inr ⟨'[', _, by decide, rfl⟩
  | call keyword arguments => exact .inr ⟨'(', _, by decide, rfl⟩
  | labeled label value => exact .inr ⟨':', _, by decide, rfl⟩

/-- Behind the head of a form comes a separator, in the form or after it. -/
theorem tail_append_eq_cons (f : Form) {r : List Token} (hr : Follows r) :
    ∃ c rest, c ∈ separators ∧ f.tail ++ r = .mark c :: rest := by
  have hfollow : ∀ c ∈ [',', ')', ']'], c ∈ separators := by decide
  rcases tail_cases f with ⟨ts, rfl⟩ | ⟨c, rest, hc, htail⟩
  · rcases hr with ⟨rest, hc⟩
    exact ⟨_, rest, hfollow _ hc, rfl⟩
  · exact ⟨c, rest ++ r, opening_separators c hc, by rw [htail]; rfl⟩

theorem head_tail_inj {f g : Form} (hf : f.Readable) (hg : g.Readable) {r r' : List Token}
    (hr : Follows r) (hr' : Follows r') (h : f.spine ++ r = g.spine ++ r') :
    f.head = g.head ∧ f.tail ++ r = g.tail ++ r' := by
  obtain ⟨c, x, hc, hx⟩ := tail_append_eq_cons f hr
  obtain ⟨d, y, hd, hy⟩ := tail_append_eq_cons g hr'
  rw [spine_eq, spine_eq, List.append_assoc, List.append_assoc, hx, hy] at h
  rw [hx, hy]
  exact solid_append_inj hf.solid_head hg.solid_head hc hd h

theorem Readable.spine_append_ne {f : Form} (h : f.Readable) {close : Char}
    (hclose : close ∈ [')', ']']) (rest r : List Token) :
    f.spine ++ rest ≠ .mark close :: r := by
  intro heq
  obtain ⟨hseparator, hother⟩ := closing_separators close hclose
  rcases tail_cases f with ⟨ts, rfl⟩ | ⟨c, tail, hc, htail⟩
  · cases h with
    | atom hne hsolid =>
      obtain ⟨t, ts, rfl⟩ := List.exists_cons_of_ne_nil hne
      obtain ⟨rfl, -⟩ := List.cons.inj heq
      exact hsolid close hseparator List.mem_cons_self
  · rw [spine_eq, htail, List.append_assoc, List.cons_append] at heq
    have hnil : Solid [] := by simp [Solid]
    obtain ⟨-, hmark⟩ := solid_append_inj h.solid_head hnil (opening_separators c hc) hseparator heq
    obtain rfl := Token.mark.inj (List.cons.inj hmark).1
    exact hother (List.mem_append_left [','] hc)

/-- What follows an entry of a list: the next one, or the closing bracket. -/
def remainder (close : Char) (fs : List Form) (r : List Token) : List Token :=
  match fs with
  | [] => .mark close :: r
  | f :: fs => .mark ',' :: (spineAll (f :: fs) ++ .mark close :: r)

theorem spineAll_cons_append (f : Form) (fs : List Form) (close : Char) (r : List Token) :
    spineAll (f :: fs) ++ .mark close :: r = f.spine ++ remainder close fs r := by
  cases fs <;> simp [spineAll, remainder]

theorem follows_remainder {close : Char} (hclose : close ∈ [')', ']']) (fs : List Form)
    (r : List Token) : Follows (remainder close fs r) := by
  cases fs with
  | nil => exact .mk r (List.mem_cons_of_mem _ hclose)
  | cons f fs => exact .mk _ (by decide)

theorem spineAll_append_inj {close : Char} (hclose : close ∈ [')', ']']) {fs gs : List Form}
    (hfs : ∀ f ∈ fs, ∀ g : Form, g.Readable → ∀ r r', Follows r → Follows r' →
      f.spine ++ r = g.spine ++ r' → f = g ∧ r = r')
    (hreadable : ∀ f ∈ fs, f.Readable)
    (hgs : ∀ g ∈ gs, g.Readable) {r r' : List Token}
    (h : spineAll fs ++ .mark close :: r = spineAll gs ++ .mark close :: r') :
    fs = gs ∧ r = r' := by
  induction fs generalizing gs with
  | nil =>
    cases gs with
    | nil => exact ⟨rfl, (List.cons.inj h).2⟩
    | cons g gs =>
      rw [spineAll_cons_append] at h
      exact absurd h.symm ((hgs g (by simp)).spine_append_ne hclose _ _)
  | cons f fs ih =>
    cases gs with
    | nil =>
      rw [spineAll_cons_append] at h
      exact absurd h ((hreadable f (by simp)).spine_append_ne hclose _ _)
    | cons g gs =>
      rw [spineAll_cons_append, spineAll_cons_append] at h
      obtain ⟨rfl, hrest⟩ := hfs f (by simp) g (hgs g (by simp)) _ _ (follows_remainder hclose fs r)
        (follows_remainder hclose gs r') h
      have hcomma : close ≠ ',' := by
        rintro rfl
        exact (closing_separators _ hclose).2 (by decide)
      cases fs with
      | nil =>
        cases gs with
        | nil => exact ⟨rfl, (List.cons.inj hrest).2⟩
        | cons g gs =>
          obtain ⟨heq, -⟩ := List.cons.inj hrest
          exact absurd (Token.mark.inj heq) hcomma
      | cons f' fs =>
        cases gs with
        | nil =>
          obtain ⟨heq, -⟩ := List.cons.inj hrest
          exact absurd (Token.mark.inj heq).symm hcomma
        | cons g gs =>
          have htail := ih (fun f hf => hfs f (List.mem_cons_of_mem _ hf))
            (fun f hf => hreadable f (List.mem_cons_of_mem _ hf))
            (fun g hg => hgs g (List.mem_cons_of_mem _ hg)) (List.cons.inj hrest).2
          exact ⟨congrArg (f :: ·) htail.1, htail.2⟩

/-- Unique reading: an entry ends where the first comma or closing bracket of its own level is. -/
theorem spine_append_inj {f g : Form} (hf : f.Readable) (hg : g.Readable) {r r' : List Token}
    (hr : Follows r) (hr' : Follows r') (h : f.spine ++ r = g.spine ++ r') : f = g ∧ r = r' := by
  induction f generalizing g r r' with
  | atom ts =>
    obtain ⟨hhead, htail⟩ := head_tail_inj hf hg hr hr' h
    rcases tail_cases g with ⟨us, rfl⟩ | ⟨c, rest, hc, htail'⟩
    · exact ⟨congrArg atom hhead, htail⟩
    · rw [htail'] at htail
      exact absurd htail (hr.ne_opening hc _)
  | list entries ih =>
    obtain ⟨-, htail⟩ := head_tail_inj hf hg hr hr' h
    cases hf with
    | list hentries =>
      cases hg with
      | atom _ _ => exact absurd htail.symm (hr'.ne_opening (by decide) _)
      | @list entries' hentries' =>
        have hopen : spineAll entries ++ .mark ']' :: r = spineAll entries' ++ .mark ']' :: r' := by
          simpa [tail] using htail
        obtain ⟨rfl, hrest⟩ := spineAll_append_inj (by decide)
          (fun f hf g hg r r' hr hr' h => ih f hf (hentries f hf) hg hr hr' h) hentries hentries'
          hopen
        exact ⟨rfl, hrest⟩
      | call _ _ => exact absurd (Token.mark.inj (List.cons.inj htail).1) (by decide)
      | labeled _ _ => exact absurd (Token.mark.inj (List.cons.inj htail).1) (by decide)
  | call keyword arguments ih =>
    obtain ⟨hhead, htail⟩ := head_tail_inj hf hg hr hr' h
    cases hf with
    | call _ harguments =>
      cases hg with
      | atom _ _ => exact absurd htail.symm (hr'.ne_opening (by decide) _)
      | list _ => exact absurd (Token.mark.inj (List.cons.inj htail).1) (by decide)
      | @call keyword' arguments' _ harguments' =>
        have hopen : spineAll arguments ++ .mark ')' :: r =
            spineAll arguments' ++ .mark ')' :: r' := by
          simpa [tail] using htail
        obtain ⟨rfl, hrest⟩ := spineAll_append_inj (by decide)
          (fun f hf g hg r r' hr hr' h => ih f hf (harguments f hf) hg hr hr' h) harguments
          harguments' hopen
        rw [String.toList_inj.mp (marks_injective hhead)]
        exact ⟨rfl, hrest⟩
      | labeled _ _ => exact absurd (Token.mark.inj (List.cons.inj htail).1) (by decide)
  | labeled label value ih =>
    obtain ⟨hhead, htail⟩ := head_tail_inj hf hg hr hr' h
    cases hf with
    | labeled _ hvalue =>
      cases hg with
      | atom _ _ => exact absurd htail.symm (hr'.ne_opening (by decide) _)
      | list _ => exact absurd (Token.mark.inj (List.cons.inj htail).1) (by decide)
      | call _ _ => exact absurd (Token.mark.inj (List.cons.inj htail).1) (by decide)
      | labeled _ hvalue' =>
        obtain ⟨rfl, hrest⟩ := ih hvalue hvalue' hr hr' (List.cons.inj htail).2
        rw [String.toList_inj.mp (marks_injective hhead)]
        exact ⟨rfl, hrest⟩

theorem spine_injective {f g : Form} (hf : f.Readable) (hg : g.Readable)
    (h : f.spine = g.spine) : f = g :=
  (spine_append_inj hf hg (.mk [] (by decide)) (.mk [] (by decide))
    (congrArg (· ++ [Token.mark ',']) h)).1

end Form

end SwiftManifest
