import SwiftManifest.Descriptor.Format
import SwiftManifest.Proofs.Descriptor.Stable
import Mathlib.Logic.Relation

/-! Every part of a package is read the same after an edit, and so is a package: what a descriptor
means is decided by its known members that say something, in whatever order they come. -/

namespace SwiftManifest

open Schema (names presence?)

instance {α : Type} [Symbolic α] : StableCodec α where
  decode_eq place _ _ h := h.enumerated _ _ place

instance : StableCodec Platform where
  decode_eq place _ _ h := h.enumerated _ _ place

instance : StableCodec SwiftLanguageVersion where
  decode_eq place _ _ h := h.enumerated _ _ place

instance : StableCodec SupportedPlatform where
  decode_eq place d e h := by
    refine bind_eq_of_rel (h.of (by decide) place) ?_
    intro r r' hr
    rw [hr.required "platform" (by simp), hr.optional "versionString" (by simp),
      hr.optional "version" (by simp)]

instance : StableCodec Condition where
  decode_eq place d e h := by
    refine bind_eq_of_rel (h.of (by decide) place) ?_
    intro r r' hr
    rw [hr.optional "platforms" (by simp), hr.optional "configuration" (by simp)]

instance : StableCodec Resource where
  decode_eq place d e h := by
    refine bind_eq_of_rel (h.tagged place) ?_
    rintro ⟨variant, d⟩ ⟨_, e⟩ ⟨rfl, fields, hmem, h⟩
    simp only [List.mem_cons, Prod.mk.injEq, List.not_mem_nil, or_false] at hmem
    rcases hmem with ⟨rfl, rfl⟩ | ⟨rfl, rfl⟩
    · refine bind_eq_of_rel (h.of (by decide) .held) ?_
      intro r r' hr
      rw [hr.required "path" (by simp)]
    · refine bind_eq_of_rel (h.of (by decide) .held) ?_
      intro r r' hr
      rw [hr.required "path" (by simp), hr.optional "localization" (by simp)]

instance : StableCodec CompilerSetting where
  decode_eq place d e h := by
    refine bind_eq_of_rel (h.tagged place) ?_
    rintro ⟨variant, d⟩ ⟨_, e⟩ ⟨rfl, fields, hmem, h⟩
    simp only [List.mem_cons, Prod.mk.injEq, List.not_mem_nil, or_false] at hmem
    rcases hmem with ⟨rfl, rfl⟩ | ⟨rfl, rfl⟩ | ⟨rfl, rfl⟩
    · refine bind_eq_of_rel (h.of (by decide) .held) ?_
      intro r r' hr
      rw [hr.required "path" (by simp), hr.optional "condition" (by simp)]
    · refine bind_eq_of_rel (h.of (by decide) .held) ?_
      intro r r' hr
      rw [hr.required "name" (by simp), hr.optional "to" (by simp),
        hr.optional "condition" (by simp)]
    · refine bind_eq_of_rel (h.of (by decide) .held) ?_
      intro r r' hr
      rw [hr.required "flags" (by simp), hr.optional "condition" (by simp)]

instance : StableCodec LinkerSetting where
  decode_eq place d e h := by
    refine bind_eq_of_rel (h.tagged place) ?_
    rintro ⟨variant, d⟩ ⟨_, e⟩ ⟨rfl, fields, hmem, h⟩
    simp only [List.mem_cons, Prod.mk.injEq, List.not_mem_nil, or_false] at hmem
    rcases hmem with ⟨rfl, rfl⟩ | ⟨rfl, rfl⟩ | ⟨rfl, rfl⟩
    · refine bind_eq_of_rel (h.of (by decide) .held) ?_
      intro r r' hr
      rw [hr.required "framework" (by simp), hr.optional "condition" (by simp)]
    · refine bind_eq_of_rel (h.of (by decide) .held) ?_
      intro r r' hr
      rw [hr.required "library" (by simp), hr.optional "condition" (by simp)]
    · refine bind_eq_of_rel (h.of (by decide) .held) ?_
      intro r r' hr
      rw [hr.required "flags" (by simp), hr.optional "condition" (by simp)]

instance : StableCodec PluginUsage where
  decode_eq place d e h := by
    refine bind_eq_of_rel (h.of (by decide) place) ?_
    intro r r' hr
    rw [hr.required "name" (by simp), hr.optional "package" (by simp)]

instance : StableCodec TargetDependency where
  decode_eq place d e h := by
    refine bind_eq_of_rel (h.tagged place) ?_
    rintro ⟨variant, d⟩ ⟨_, e⟩ ⟨rfl, fields, hmem, h⟩
    simp only [List.mem_cons, Prod.mk.injEq, List.not_mem_nil, or_false] at hmem
    rcases hmem with ⟨rfl, rfl⟩ | ⟨rfl, rfl⟩ | ⟨rfl, rfl⟩ | ⟨rfl, rfl⟩
    · refine bind_eq_of_rel (h.of (by decide) .held) ?_
      intro r r' hr
      rw [hr.required "name" (by simp), hr.optional "package" (by simp),
        hr.optional "condition" (by simp)]
    · refine bind_eq_of_rel (h.of (by decide) .held) ?_
      intro r r' hr
      rw [hr.required "name" (by simp), hr.optional "condition" (by simp)]
    · refine bind_eq_of_rel (h.of (by decide) .held) ?_
      intro r r' hr
      rw [hr.required "name" (by simp), hr.optional "condition" (by simp)]
    · refine bind_eq_of_rel (h.of (by decide) .held) ?_
      intro r r' hr
      rw [hr.required "name" (by simp)]

instance : StableCodec PackageProvider where
  decode_eq place d e h := by
    refine bind_eq_of_rel (h.of (by decide) place) ?_
    intro r r' hr
    rw [hr.required "provider" (by simp), hr.list .keptList "packages" (by simp) rfl]

instance : StableCodec CommandIntent where
  decode_eq place d e h := by
    refine bind_eq_of_rel (h.tagged place) ?_
    rintro ⟨variant, d⟩ ⟨_, e⟩ ⟨rfl, fields, hmem, h⟩
    simp only [List.mem_cons, Prod.mk.injEq, List.not_mem_nil, or_false] at hmem
    rcases hmem with ⟨rfl, rfl⟩ | ⟨rfl, rfl⟩ | ⟨rfl, rfl⟩
    · exact congrArg (Option.map fun _ => CommandIntent.documentationGeneration) h.bare
    · exact congrArg (Option.map fun _ => CommandIntent.sourceCodeFormatting) h.bare
    · refine bind_eq_of_rel (h.of (by decide) .held) ?_
      intro r r' hr
      rw [hr.required "verb" (by simp), hr.required "description" (by simp)]

instance : StableCodec Permission where
  decode_eq place d e h := by
    refine bind_eq_of_rel (h.tagged place) ?_
    rintro ⟨variant, d⟩ ⟨_, e⟩ ⟨rfl, fields, hmem, h⟩
    simp only [List.mem_cons, Prod.mk.injEq, List.not_mem_nil, or_false] at hmem
    obtain ⟨rfl, rfl⟩ := hmem
    refine bind_eq_of_rel (h.of (by decide) .held) ?_
    intro r r' hr
    rw [hr.required "reason" (by simp)]

instance : StableCodec CommandCapability where
  decode_eq place d e h := by
    refine bind_eq_of_rel (h.of (by decide) place) ?_
    intro r r' hr
    rw [hr.optional "intent" (by simp [CommandCapability.described]),
      hr.list .keptList "permissions" (by simp [CommandCapability.described]) rfl]

instance : StableCodec Capability where
  decode_eq place d e h := by
    refine bind_eq_of_rel (h.tagged place) ?_
    rintro ⟨variant, d⟩ ⟨_, e⟩ ⟨rfl, fields, hmem, h⟩
    simp only [List.mem_cons, Prod.mk.injEq, List.not_mem_nil, or_false] at hmem
    rcases hmem with ⟨rfl, rfl⟩ | ⟨rfl, rfl⟩
    · exact congrArg (Option.map fun _ => Capability.buildTool) h.bare
    · exact congrArg (Option.map Capability.command)
        (StableCodec.decode_eq (α := CommandCapability) .held d e h)

instance : StableCodec Product where
  decode_eq place d e h := by
    refine bind_eq_of_rel (h.tagged place) ?_
    rintro ⟨variant, d⟩ ⟨_, e⟩ ⟨rfl, fields, hmem, h⟩
    simp only [List.mem_cons, Prod.mk.injEq, List.not_mem_nil, or_false] at hmem
    rcases hmem with ⟨rfl, rfl⟩ | ⟨rfl, rfl⟩ | ⟨rfl, rfl⟩
    · refine bind_eq_of_rel (h.of (by decide) .held) ?_
      intro r r' hr
      rw [hr.required "name" (by simp), hr.optional "type" (by simp),
        hr.list .keptList "targets" (by simp) rfl]
    · refine bind_eq_of_rel (h.of (by decide) .held) ?_
      intro r r' hr
      rw [hr.required "name" (by simp), hr.list .keptList "targets" (by simp) rfl]
    · refine bind_eq_of_rel (h.of (by decide) .held) ?_
      intro r r' hr
      rw [hr.required "name" (by simp), hr.list .keptList "targets" (by simp) rfl]

section Layers

variable {r r' : Record}

theorem Sources.ofRecord?_alike (h : r.Alike described r') : ofRecord? r = ofRecord? r' := by
  rw [ofRecord?, ofRecord?, h.list .list "exclude" (by simp [described]) rfl,
    h.list .list "sources" (by simp [described]) rfl,
    h.list .list "dependencies" (by simp [described]) rfl]

theorem BuildSettings.ofRecord?_alike (h : r.Alike described r') :
    ofRecord? r = ofRecord? r' := by
  rw [ofRecord?, ofRecord?, h.list .list "resources" (by simp [described]) rfl,
    h.list .list "cSettings" (by simp [described]) rfl,
    h.list .list "cxxSettings" (by simp [described]) rfl,
    h.list .list "swiftSettings" (by simp [described]) rfl,
    h.list .list "linkerSettings" (by simp [described]) rfl,
    h.list .list "plugins" (by simp [described]) rfl]

theorem SourceModule.ofRecord?_alike (h : r.Alike described r') :
    ofRecord? r = ofRecord? r' := by
  rw [ofRecord?, ofRecord?,
    Sources.ofRecord?_alike (h.mono (List.subset_append_left _ _)),
    BuildSettings.ofRecord?_alike (h.mono (List.subset_append_right _ _))]

theorem PublicModule.ofRecord?_alike (h : r.Alike described r') :
    ofRecord? r = ofRecord? r' := by
  rw [ofRecord?, ofRecord?,
    SourceModule.ofRecord?_alike (h.mono (List.subset_append_left _ _)),
    h.optional "publicHeadersPath" (by simp [described])]

theorem Plugin.ofRecord?_alike (h : r.Alike described r') : ofRecord? r = ofRecord? r' := by
  rw [ofRecord?, ofRecord?,
    Sources.ofRecord?_alike (h.mono (List.subset_cons_self _ _)),
    h.optional "capability" (by simp [described])]

theorem SystemLibrary.ofRecord?_alike (h : r.Alike described r') :
    ofRecord? r = ofRecord? r' := by
  rw [ofRecord?, ofRecord?, h.optional "pkgConfig" (by simp [described]),
    h.optional "providers" (by simp [described])]

theorem BinaryArtifact.ofRecord?_alike (h : r.Alike described r') :
    ofRecord? r = ofRecord? r' := by
  rw [ofRecord?, ofRecord?, h.optional "url" (by simp [described]),
    h.optional "checksum" (by simp [described]),
    h.list .list "dependencies" (by simp [described]) rfl]

theorem TargetBody.ofRecord?_alike {kind : String} (hkind : kind ∈ variants)
    (h : r.Alike (described kind) r') : ofRecord? kind r = ofRecord? kind r' := by
  simp only [variants, List.mem_cons, List.not_mem_nil, or_false] at hkind
  rcases hkind with rfl | rfl | rfl | rfl | rfl | rfl
  · exact congrArg (Option.map regular) (PublicModule.ofRecord?_alike h)
  · exact congrArg (Option.map executable) (PublicModule.ofRecord?_alike h)
  · exact congrArg (Option.map test) (SourceModule.ofRecord?_alike h)
  · exact congrArg (Option.map plugin) (Plugin.ofRecord?_alike h)
  · exact congrArg (Option.map systemLibrary) (SystemLibrary.ofRecord?_alike h)
  · exact congrArg (Option.map binary) (BinaryArtifact.ofRecord?_alike h)

end Layers

namespace Declared

instance : StableCodec Target where
  decode_eq place d e h := by
    refine bind_eq_of_rel (h.tagged place) ?_
    rintro ⟨kind, d⟩ ⟨_, e⟩ ⟨rfl, fields, hmem, h⟩
    obtain ⟨kind, hkind, hfields⟩ := List.mem_map.mp hmem
    obtain ⟨rfl, rfl⟩ := Prod.mk.inj hfields
    obtain ⟨hnames, hnodup⟩ := names_described kind hkind
    have hrecord := h.ofObject hnodup.of_cons (List.Subset.refl _) .held
    rw [hnames] at hrecord
    refine bind_eq_of_rel hrecord ?_
    intro r r' hr
    have hbody : r.Alike (TargetBody.described kind) r' := hr.mono (by simp [described])
    rw [hr.optional "name" (by simp [described]), hr.optional "path" (by simp [described]),
      TargetBody.ofRecord?_alike hkind hbody]

end Declared

namespace PackageDependency

/-- The names of fields that give a location. -/
def Locates (name : String) : Prop := name = "path" ∨ name = "url"

instance (name : String) : Decidable (Locates name) := inferInstanceAs (Decidable (_ ∨ _))

theorem presence?_eq (ms : List (String × Datum)) (name : String) :
    presence? ((schema PackageDependency).fieldsOf ms) name =
      if Locates name then some .choice else if name = "version" then some .optional else none := by
  by_cases hpath : name = "path"
  · subst hpath
    rfl
  · by_cases hurl : name = "url"
    · subst hurl
      rfl
    · by_cases hversion : name = "version"
      · subst hversion
        rfl
      · simp only [Locates, hpath, hurl, hversion, or_self, if_false]
        change presence? [field "path" .choice String, field "url" .choice String,
          field "version" .optional String] name = none
        rw [field, presence?_cons_of_ne hpath, field, presence?_cons_of_ne hurl, field,
          presence?_cons_of_ne hversion]
        rfl

theorem choice_iff (ms : List (String × Datum)) (name : String) :
    presence? ((schema PackageDependency).fieldsOf ms) name = some .choice ↔ Locates name := by
  rw [presence?_eq]
  by_cases h : Locates name
  · simp [h]
  · by_cases hversion : name = "version" <;> simp [h, hversion]

theorem ofMembers?_filter (ms : List (String × Datum)) :
    Location.ofMembers? (ms.filter fun m => m.1 ≠ "version") = Location.ofMembers? ms := by
  have hfind : (ms.filter fun m => m.1 ≠ "version").find? (fun m => m.1 = "path" ∨ m.1 = "url") =
      ms.find? fun m => m.1 = "path" ∨ m.1 = "url" := by
    rw [List.find?_filter]
    congr 1
    funext m
    by_cases h : m.1 = "version" <;> simp [h]
  rw [Location.ofMembers?, hfind, Location.ofMembers?]

/-- An edit neither moves a location nor makes one. -/
theorem location_eq {ms ns : List (String × Datum)}
    (h : Edit (schema PackageDependency) (.object ms) (.object ns)) :
    Location.ofMembers? ms = Location.ofMembers? ns := by
  have hinsert : ∀ name d, ¬ Locates name →
      Location.ofMembers? ms = Location.ofMembers? ((name, d) :: ms) := by
    intro name d hname
    have hfalse : (name = "path" ∨ name = "url") = False := eq_false hname
    simp only [Location.ofMembers?, List.find?_cons, hfalse, decide_false]
  cases h with
  | reorder hperm hsettled =>
    simp only [Schema.Settled, choice_iff, Locates] at hsettled
    simp only [Location.ofMembers?, ← List.head?_filter]
    rw [perm_eq_of_length_le_one (hperm.filter _) hsettled]
  | unknown _ hname _ =>
    refine hinsert _ _ ?_
    intro hlocates
    refine hname ?_
    rcases hlocates with rfl | rfl
    · exact List.mem_cons_self
    · exact List.mem_cons_of_mem _ List.mem_cons_self
  | null hfield _ =>
    refine hinsert _ _ ?_
    intro hlocates
    rw [(choice_iff ms _).mpr hlocates] at hfield
    cases hfield
  | empty hfield hlist _ =>
    refine hinsert _ _ ?_
    intro hlocates
    rw [(choice_iff ms _).mpr hlocates] at hfield
    cases hfield
    cases hlist
  | @member _ ms ns name d e hinner =>
    simp only [Location.ofMembers?, List.find?_append, List.find?_cons]
    cases ms.find? fun m => m.1 = "path" ∨ m.1 = "url" with
    | some m => rfl
    | none =>
      by_cases hname : name = "path" ∨ name = "url"
      · rcases hinner.containers with ⟨_, _, rfl, rfl⟩ | ⟨_, _, rfl, rfl⟩ <;>
          simp [hname]
      · simp [hname]

/-- The location among the members that are held beside the version. -/
def locationOf? (place : Place) (ms : List (String × Datum)) : Option Location := do
  let _ ← held? place (.object (ms.filter fun m => m.1 ≠ "version"))
  Location.ofMembers? ms

theorem decode_object (place : Place) (ms : List (String × Datum)) :
    PackageDependency.decode place (.object ms) = (do
      let r ← Record.ofObject? place ["version"] (.object ms)
      let version ← r.optional "version"
      return { location := ← locationOf? place ms, version }) := by
  rw [locationOf?, ← ofMembers?_filter ms, decode]
  by_cases hu : Record.unrepeated ["version"] ms = true
  · simp only [Record.ofObject?, hu, if_true, Option.bind_eq_bind, Option.bind_some]
    congr 1
    funext version
    rcases held?_eq place (.object (ms.filter fun m => m.1 ≠ "version")) with hheld | hheld <;>
      rw [hheld] <;> rfl
  · simp [Record.ofObject?, hu]

theorem held?_bind_eq {α : Type} {d e : Datum} (h : d.readable = e.readable) (place : Place)
    (x : Option α) : (held? place d).bind (fun _ => x) = (held? place e).bind fun _ => x := by
  unfold held?
  rw [h]
  by_cases hlost : place = .json ∧ e.readable = false
  · rw [if_pos hlost, if_pos hlost]
  · rw [if_neg hlost, if_neg hlost]
    rfl

theorem locationOf?_eq {ms ns : List (String × Datum)}
    (h : Edit (schema PackageDependency) (.object ms) (.object ns)) (place : Place) :
    locationOf? place ms = locationOf? place ns := by
  have hreadable := h.membersReadable_filter fun name => name ≠ "version"
  rw [locationOf?, locationOf?, location_eq h]
  exact held?_bind_eq (d := .object _) (e := .object _) hreadable place _

instance : StableCodec PackageDependency where
  decode_eq place d e h := by
    rcases h.containers with ⟨ms, ns, rfl, rfl⟩ | ⟨_, _, rfl, rfl⟩
    · change PackageDependency.decode place (.object ms) =
        PackageDependency.decode place (.object ns)
      rw [decode_object, decode_object, locationOf?_eq h]
      have hversion : [field "version" .optional String] ⊆
          [field "path" .choice String, field "url" .choice String,
            field "version" .optional String] := by simp
      refine bind_eq_of_rel (h.ofObject (by decide) hversion place) ?_
      intro r r' hr
      rw [hr.optional "version" (by simp)]
    · rfl

end PackageDependency

instance : StableCodec Package where
  decode_eq place d e h := by
    refine bind_eq_of_rel (h.of (by decide) place) ?_
    intro r r' hr
    rw [hr.required "name" (by simp [Package.described]),
      hr.optional "defaultLocalization" (by simp [Package.described]),
      hr.list .list "platforms" (by simp [Package.described]) rfl,
      hr.list .list "products" (by simp [Package.described]) rfl,
      hr.list .list "dependencies" (by simp [Package.described]) rfl,
      hr.list .list "targets" (by simp [Package.described]) rfl,
      hr.list .list "swiftLanguageVersions" (by simp [Package.described]) rfl,
      hr.optional "cLanguageStandard" (by simp [Package.described]),
      hr.optional "cxxLanguageStandard" (by simp [Package.described])]

section Documents

open Relation (ReflTransGen)

/-- Any number of edits, at any depth, leave what is read as it was. -/
theorem StableCodec.decode_edits {α : Type} [Codec α] [Described α] [StableCodec α] {d e : Datum}
    (h : ReflTransGen (Edit (schema α)) d e) (place : Place) :
    (decode place d : Option α) = decode place e := by
  induction h with
  | refl => rfl
  | tail _ hedit ih => rw [ih, StableCodec.decode_eq place _ _ hedit]

theorem DescriptorFormat.parse_eq_ok_iff (format : DescriptorFormat) {content : String} {d : Datum}
    {p : Package} (hread : format.read content.toList = some d) :
    format.parse content = .ok p ↔ decode format.place d = some p := by
  rw [parse, readAs, hread, Option.bind_some]
  cases (decode format.place d : Option Package) <;> simp

/-- Texts of one notation whose values differ by edits load the same package, or both load none. -/
theorem DescriptorFormat.parse_edited (format : DescriptorFormat) {content content' : String}
    {d e : Datum} (hd : format.read content.toList = some d)
    (he : format.read content'.toList = some e)
    (h : ReflTransGen (Edit (schema Package)) d e) :
    format.parse content = format.parse content' := by
  have hdecode : (decode format.place d : Option Package) = decode format.place e :=
    StableCodec.decode_edits h format.place
  rw [parse, parse, readAs, readAs, hd, he, Option.bind_some, Option.bind_some, hdecode]

/-- A product whose members are reordered, among them an unknown one, a null and an empty list. -/
theorem DescriptorFormat.parse_edited_product :
    json.parse "\x7b\"name\":\"P\",\"products\":[\x7b\"name\":\"L\",\"kind\":\"library\"\x7d]\x7d" =
      json.parse ("\x7b\"products\":[\x7b\"targets\":[],\"type\":null,\"kind\":\"library\"," ++
        "\"note\":true,\"name\":\"L\"\x7d],\"name\":\"P\"\x7d") := by
  let name : String × Datum := ("name", .text "L")
  let kind : String × Datum := ("kind", .text "library")
  let note : String × Datum := ("note", .bool true)
  let document (d : Datum) : Datum := .object [("name", .text "P"), ("products", .array [d])]
  have hnote : Edit (schema Product) (.object [name, kind]) (.object [note, name, kind]) :=
    .unknown rfl (by decide) rfl
  have htype : Edit (schema Product) (.object [note, name, kind])
      (.object [("type", .null), note, name, kind]) := .null (by decide) (by decide)
  have htargets : Edit (schema Product) (.object [("type", .null), note, name, kind])
      (.object [("targets", .array []), ("type", .null), note, name, kind]) :=
    .empty (p := .keptList) (by decide) rfl (by decide)
  have horder : Edit (schema Product)
      (.object [("targets", .array []), ("type", .null), note, name, kind])
      (.object [("targets", .array []), ("type", .null), kind, note, name]) := by
    refine .reorder (((List.perm_append_singleton kind [note, name]).cons _).cons _) ?_
    unfold Schema.Settled
    decide
  have hinside : ∀ d e, Edit (schema Product) d e →
      Edit (schema Package) (document d) (document e) := by
    intro d e h
    have helement : Edit ((schema Package).member
        ([("name", .text "P")] ++ ("products", .array [d]) :: []) "products")
        (.array ([] ++ d :: [])) (.array ([] ++ e :: [])) := .element h
    exact .member helement
  have houter : Edit (schema Package)
      (document (.object [("targets", .array []), ("type", .null), kind, note, name]))
      (.object [("products", .array [.object [("targets", .array []), ("type", .null), kind, note,
        name]]), ("name", .text "P")]) := by
    refine .reorder (.swap _ _ _) ?_
    unfold Schema.Settled
    decide
  have hproduct := ((ReflTransGen.single hnote).tail htype).tail htargets |>.tail horder
  exact parse_edited json (by cbv) (by cbv) ((hproduct.lift document hinside).tail houter)

end Documents

end SwiftManifest
