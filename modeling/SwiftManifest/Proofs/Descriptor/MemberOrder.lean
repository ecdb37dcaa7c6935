import SwiftManifest.Proofs.Descriptor.Edited
import Mathlib.Data.List.Perm.Subperm

/-! Package dependencies whose members come in another order. The location shares the object with
the version and is found by its name, so it is the first member with such a name: an object with
both a path and a URL is read by the one that comes first. No other order matters. -/

namespace SwiftManifest

namespace PackageDependency

/-- The members that give a location, in their order. -/
def located (ms : List (String × Datum)) : List (String × Datum) :=
  ms.filter fun m => Locates m.1

/-- The members without a location, and the location with this name. -/
def locatedOnlyBy (name : String) (ms : List (String × Datum)) : List (String × Datum) :=
  ms.filter fun m => ¬ Locates m.1 ∨ m.1 = name

variable {ms ns : List (String × Datum)}

theorem head?_located (ms : List (String × Datum)) :
    (located ms).head? = ms.find? fun m => m.1 = "path" ∨ m.1 = "url" :=
  List.head?_filter

theorem ofMembers?_of_head? (h : (located ms).head? = (located ns).head?) :
    Location.ofMembers? ms = Location.ofMembers? ns := by
  rw [Location.ofMembers?, ← head?_located, h, head?_located, Location.ofMembers?]

/-- The first member that gives a location has to be a text, and it is the location. -/
theorem located_of_ofMembers? {location : Location} (h : Location.ofMembers? ms = some location) :
    ∃ rest, located ms = location.member :: rest := by
  rw [Location.ofMembers?, ← head?_located] at h
  split at h
  · rename_i value hpath
    obtain rfl := Option.some.inj h
    exact List.head?_eq_some_iff.mp hpath
  · rename_i value hurl
    obtain rfl := Option.some.inj h
    exact List.head?_eq_some_iff.mp hurl
  · cases h

theorem locates_of_mem {m : String × Datum} (h : m ∈ located ms) : m ∈ ms ∧ Locates m.1 := by
  obtain ⟨hm, hlocates⟩ := List.mem_filter.mp h
  exact ⟨hm, of_decide_eq_true hlocates⟩

/-- Names are distinct, so there are no more locations than names for them. -/
theorem length_located_le (hnodup : (ms.map Prod.fst).Nodup) {names : List String}
    (hnames : ∀ m ∈ located ms, m.1 ∈ names) : (located ms).length ≤ names.length := by
  have hdistinct : ((located ms).map Prod.fst).Nodup :=
    hnodup.sublist (List.filter_sublist.map Prod.fst)
  have hsubset : (located ms).map Prod.fst ⊆ names := by
    intro name hname
    obtain ⟨m, hm, rfl⟩ := List.mem_map.mp hname
    exact hnames m hm
  simpa using (hdistinct.subperm hsubset).length_le

/-- When both orders give one location, no two locations have changed places. -/
theorem located_eq_of_ofMembers? (hnodup : (ms.map Prod.fst).Nodup) (hperm : ms.Perm ns)
    {location : Location} (hms : Location.ofMembers? ms = some location)
    (hns : Location.ofMembers? ns = some location) : located ms = located ns := by
  obtain ⟨rest, hrest⟩ := located_of_ofMembers? hms
  obtain ⟨rest', hrest'⟩ := located_of_ofMembers? hns
  have hlength : (located ms).length ≤ ["path", "url"].length :=
    length_located_le hnodup fun m hm => List.mem_pair.mpr (locates_of_mem hm).2
  have hlocated : (located ms).Perm (located ns) := hperm.filter _
  rw [hrest, hrest', List.perm_cons] at hlocated
  rw [hrest] at hlength
  rw [hrest, hrest', perm_eq_of_length_le_one hlocated (Nat.le_of_succ_le_succ hlength)]

/-- One location cannot change places. -/
theorem located_eq_of_single (hnodup : (ms.map Prod.fst).Nodup) (hperm : ms.Perm ns)
    (hsingle : ¬ ("path" ∈ ms.map Prod.fst ∧ "url" ∈ ms.map Prod.fst)) :
    located ms = located ns := by
  have hname : ∃ name, ∀ m ∈ located ms, m.1 ∈ [name] := by
    rcases not_and_or.mp hsingle with hpath | hurl
    · refine ⟨"url", fun m hm => ?_⟩
      obtain ⟨hmem, hlocates⟩ := locates_of_mem hm
      rcases hlocates with hname | hname
      · exact absurd (hname ▸ List.mem_map_of_mem hmem) hpath
      · exact List.mem_singleton.mpr hname
    · refine ⟨"path", fun m hm => ?_⟩
      obtain ⟨hmem, hlocates⟩ := locates_of_mem hm
      rcases hlocates with hname | hname
      · exact List.mem_singleton.mpr hname
      · exact absurd (hname ▸ List.mem_map_of_mem hmem) hurl
  obtain ⟨name, hname⟩ := hname
  exact perm_eq_of_length_le_one (hperm.filter _) (length_located_le hnodup hname)

theorem locationOf?_of_perm (hperm : ms.Perm ns) (hlocated : located ms = located ns)
    (place : Place) : locationOf? place ms = locationOf? place ns := by
  have hreadable : Datum.membersReadable (ms.filter fun m => m.1 ≠ "version") =
      Datum.membersReadable (ns.filter fun m => m.1 ≠ "version") := by
    rw [Bool.eq_iff_iff]
    simp only [Datum.membersReadable_iff, List.mem_filter, hperm.mem_iff]
  rw [locationOf?, locationOf?, ofMembers?_of_head? (congrArg List.head? hlocated)]
  exact held?_bind_eq (d := .object _) (e := .object _) hreadable place _

/-- With distinct names only the version and the location are read. -/
theorem decode_eq_of_parts (hms : (ms.map Prod.fst).Nodup) (hns : (ns.map Prod.fst).Nodup)
    (hversion : ms.lookup "version" = ns.lookup "version") {place : Place}
    (hlocation : locationOf? place ms = locationOf? place ns) :
    PackageDependency.decode place (.object ms) = PackageDependency.decode place (.object ns) := by
  rw [decode_object, decode_object, hlocation]
  simp only [Record.ofObject?, Record.unrepeated_of_nodup hms, Record.unrepeated_of_nodup hns,
    if_true, Option.bind_eq_bind, Option.bind_some, Record.optional, hversion]

/-- What is read depends on the order of the members only through the locations. -/
theorem decode_of_perm (hnodup : (ms.map Prod.fst).Nodup) (hperm : ms.Perm ns)
    (hlocated : located ms = located ns) (place : Place) :
    PackageDependency.decode place (.object ms) = PackageDependency.decode place (.object ns) := by
  have hversion : ms.lookup "version" = ns.lookup "version" := by
    have hms := Record.unrepeated_of_nodup hnodup ["version"]
    exact lookup_perm hperm (by simpa [Record.unrepeated] using hms)
  exact decode_eq_of_parts hnodup ((hperm.map Prod.fst).nodup_iff.mp hnodup) hversion
    (locationOf?_of_perm hperm hlocated place)

theorem locationOf?_of_decode {place : Place} {d : PackageDependency}
    (h : PackageDependency.decode place (.object ms) = some d) :
    locationOf? place ms = some d.location := by
  simp only [decode_object, Option.bind_eq_bind, Option.bind_eq_some_iff] at h
  obtain ⟨r, -, version, -, location, hlocation, hd⟩ := h
  obtain rfl := Option.some.inj hd
  exact hlocation

theorem ofMembers?_of_decode {place : Place} {d : PackageDependency}
    (h : PackageDependency.decode place (.object ms) = some d) :
    Location.ofMembers? ms = some d.location := by
  obtain ⟨_, -, hlocation⟩ := Option.bind_eq_some_iff.mp (locationOf?_of_decode h)
  exact hlocation

theorem located_locatedOnlyBy (name : String) (ms : List (String × Datum)) :
    located (locatedOnlyBy name ms) = (located ms).filter fun m => m.1 = name := by
  rw [located, locatedOnlyBy, located, List.filter_filter, List.filter_filter]
  congr 1
  funext m
  by_cases h : Locates m.1 <;> simp [h]

/-- The location that is read is still the first one when no other is left. -/
theorem ofMembers?_locatedOnlyBy {location : Location}
    (h : Location.ofMembers? ms = some location) :
    Location.ofMembers? (locatedOnlyBy location.member.1 ms) = some location := by
  obtain ⟨rest, hrest⟩ := located_of_ofMembers? h
  rw [← h]
  refine ofMembers?_of_head? ?_
  rw [located_locatedOnlyBy, hrest, List.filter_cons_of_pos (by simp)]
  rfl

/-- What can be held can still be held with members left out. -/
theorem locationOf?_locatedOnlyBy {place : Place} {location : Location}
    (h : locationOf? place ms = some location) :
    locationOf? place (locatedOnlyBy location.member.1 ms) = some location := by
  simp only [locationOf?, Option.bind_eq_bind, Option.bind_eq_some_iff] at h ⊢
  obtain ⟨members, hheld, hlocation⟩ := h
  refine ⟨_, held?_of_readable_imp ?_ hheld, ofMembers?_locatedOnlyBy hlocation⟩
  simp only [Datum.readable, Datum.membersReadable_iff]
  intro hreadable m hm
  obtain ⟨hleft, hname⟩ := List.mem_filter.mp hm
  exact hreadable m (List.mem_filter.mpr ⟨List.mem_of_mem_filter hleft, hname⟩)

/-- The location that comes later is ignored, as a member that is not known would be. -/
theorem decode_locatedOnlyBy (hnodup : (ms.map Prod.fst).Nodup) {place : Place}
    {d : PackageDependency} (h : PackageDependency.decode place (.object ms) = some d) :
    PackageDependency.decode place (.object (locatedOnlyBy d.location.member.1 ms)) = some d := by
  have hleft : ((locatedOnlyBy d.location.member.1 ms).map Prod.fst).Nodup :=
    hnodup.sublist (List.filter_sublist.map Prod.fst)
  have hversion : (locatedOnlyBy d.location.member.1 ms).lookup "version" = ms.lookup "version" :=
    lookup_filter ms (fun name => ¬ Locates name ∨ name = d.location.member.1)
      (decide_eq_true (.inl (by decide)))
  have hlocation := locationOf?_of_decode h
  rw [← h]
  exact decode_eq_of_parts hleft hnodup hversion
    ((locationOf?_locatedOnlyBy hlocation).trans hlocation.symm)

/-- An object with one location is read the same in every order of its members. With two of them
only their own order matters, and it does whenever there is anything to read: the location that
comes first decides, and without the other the same is read. -/
theorem decode_eq_iff_of_perm (hnodup : (ms.map Prod.fst).Nodup) (hperm : ms.Perm ns)
    (place : Place) :
    (¬ ("path" ∈ ms.map Prod.fst ∧ "url" ∈ ms.map Prod.fst) →
      PackageDependency.decode place (.object ms) =
        PackageDependency.decode place (.object ns)) ∧
    (PackageDependency.decode place (.object ms) =
        PackageDependency.decode place (.object ns) ↔
      located ms = located ns ∨ PackageDependency.decode place (.object ms) = none ∧
        PackageDependency.decode place (.object ns) = none) ∧
    ∀ d, PackageDependency.decode place (.object ms) = some d →
      (∃ rest, located ms = d.location.member :: rest) ∧
        PackageDependency.decode place (.object (locatedOnlyBy d.location.member.1 ms)) =
          some d := by
  refine ⟨fun hsingle => ?_, ⟨fun heq => ?_, ?_⟩, fun d hd => ?_⟩
  · exact decode_of_perm hnodup hperm (located_eq_of_single hnodup hperm hsingle) place
  · cases hms : PackageDependency.decode place (.object ms) with
    | none => exact .inr ⟨rfl, heq ▸ hms⟩
    | some d =>
      have hns := heq.symm.trans hms
      exact .inl (located_eq_of_ofMembers? hnodup hperm (ofMembers?_of_decode hms)
        (ofMembers?_of_decode hns))
  · rintro (hlocated | ⟨hms, hns⟩)
    · exact decode_of_perm hnodup hperm hlocated place
    · rw [hms, hns]
  · exact ⟨located_of_ofMembers? (ofMembers?_of_decode hd), decode_locatedOnlyBy hnodup hd⟩

/-- The version moves to the front, the two locations stay in their order, and the one that comes
later can be left out. -/
theorem decode_eq_of_version_first :
    let ms : List (String × Datum) :=
      [("path", .text "../Shared"), ("url", .null), ("version", .text "1.0.0")]
    let ns : List (String × Datum) :=
      [("version", .text "1.0.0"), ("path", .text "../Shared"), ("url", .null)]
    let d : PackageDependency := { location := .path "../Shared", version := "1.0.0" }
    (ms.map Prod.fst).Nodup ∧ ms.Perm ns ∧ located ms = located ns ∧
      PackageDependency.decode .json (.object ms) = PackageDependency.decode .json (.object ns) ∧
      PackageDependency.decode .json (.object (locatedOnlyBy "path" ms)) = some d := by
  intro ms ns d
  have hnodup : (ms.map Prod.fst).Nodup := by decide
  have hperm : ms.Perm ns := @List.perm_append_comm _ [_, _] [_]
  have hlocated : located ms = located ns := rfl
  have hd : PackageDependency.decode .json (.object ms) = some d := rfl
  have horder := decode_eq_iff_of_perm hnodup hperm .json
  exact ⟨hnodup, hperm, hlocated, horder.2.1.mpr (.inl hlocated), (horder.2.2 d hd).2⟩

/-- With two locations the order of the members decides what is read. -/
theorem not_decode_eq_of_perm :
    ¬ ∀ ms ns : List (String × Datum), (ms.map Prod.fst).Nodup → ms.Perm ns →
      PackageDependency.decode .json (.object ms) = PackageDependency.decode .json (.object ns) := by
  intro h
  have heq := h [("path", .text "p"), ("url", .text "u")] [("url", .text "u"), ("path", .text "p")]
    (by decide) (.swap _ _ _)
  have hpath : PackageDependency.decode .json (.object [("path", .text "p"), ("url", .text "u")]) =
      some { location := .path "p" } := rfl
  have hurl : PackageDependency.decode .json (.object [("url", .text "u"), ("path", .text "p")]) =
      some { location := .url "u" } := rfl
  rw [hpath, hurl] at heq
  exact absurd heq (by decide)

end PackageDependency

end SwiftManifest
