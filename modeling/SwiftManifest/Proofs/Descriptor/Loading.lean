import SwiftManifest.Descriptor.Load
import SwiftManifest.Proofs.Manifest.Trace

/-! Loading a descriptor from a file. The extension comes first, then the text of the file, then its
notation: the first of them that fails decides the error, and every way to load a file gives the
same result up to what it was being loaded for. Only success is reported, and before anything is
rendered. -/

namespace SwiftManifest

namespace DescriptorFormat

variable {path : String} {format : DescriptorFormat} {content : String} {e : DescriptorError}

theorem eq_of_ofPath_error (h : ofPath path = .error e) : e = .unsupportedExtension path := by
  unfold ofPath at h
  split at h
  · cases h
  · split at h <;> cases h
    rfl

theorem eq_of_parse_error (h : format.parse content = .error e) : e = format.error := by
  unfold parse readAs at h
  split at h <;> cases h
  rfl

end DescriptorFormat

namespace Package

/-- What is recorded of a package that a file holds. -/
def loadedEntry (p : Package) (path : String) : LogEntry :=
  { level := .debug
    message := "loaded package descriptor"
    fields := [("path", .text path), ("name", .text p.name), ("targets", .count p.targets.length)] }

section InFile

variable {path : String} {file : FileState}

theorem inFile_of_rejected {e : DescriptorError} (h : DescriptorFormat.ofPath path = .error e)
    (other : FileState) : inFile path other = .error e := by
  rw [inFile, h]
  rfl

theorem inFile_of_unreadable {format : DescriptorFormat}
    (h : DescriptorFormat.ofPath path = .ok format) (hfile : file.text? = none) :
    inFile path file = .error (.io path) := by
  simp only [inFile, h, hfile]
  rfl

theorem inFile_of_content {format : DescriptorFormat} {content : String}
    (h : DescriptorFormat.ofPath path = .ok format) (hfile : file.text? = some content) :
    inFile path file = format.parse content := by
  simp only [inFile, h, hfile]
  rfl

end InFile

end Package

/-- What is recorded of a package that was looked for in a file. -/
def loadedEntries (path : String) : Except DescriptorError Package → List LogEntry
  | .ok p => [p.loadedEntry path]
  | .error _ => []

/-- What is recorded of writing a package, if there is one to write. -/
def renderedEntries : Except DescriptorError Package → List LogEntry
  | .ok p => p.renderingEntry :: p.dependencies.filterMap PackageDependency.constraintRecord?
  | .error _ => []

/-- The manifest of a package that there may be, or why there is none. -/
def documentAt (step : GenerationStep) (found : Except DescriptorError Package) :
    Except GenerationError Text :=
  (found.map Package.document).mapError fun cause => { step, cause }

/-- Loading a package from a file, for itself or for its manifest. -/
structure LoadsAs (path : String) (file : FileState) (found : Except DescriptorError Package) :
    Prop where
  ofFile_value : (Package.ofFile path file).value = found
  load_value : (Package.load path file).value =
    found.mapError fun cause => { step := .loading path, cause }
  generate_value : (generateFromFile path file).value = documentAt (.loading path) found
  ofFile_entries : (Package.ofFile path file).events.map Event.logEntry = loadedEntries path found
  load_entries : (Package.load path file).events.map Event.logEntry = loadedEntries path found
  generate_entries : (generateFromFile path file).events.map Event.logEntry =
    loadedEntries path found ++ renderedEntries found

/-- Generating a manifest from a text that is already there. -/
structure GeneratesAs (format : DescriptorFormat) (content : String)
    (found : Except DescriptorError Package) : Prop where
  value_eq : (generateFromText format content).value = documentAt (.reading format) found
  entries_eq : (generateFromText format content).events.map Event.logEntry = renderedEntries found

/-- Every way to load a file gives what is in it, and is recorded only if that is a package. -/
theorem loadsAs_inFile (path : String) (file : FileState) :
    LoadsAs path file (Package.inFile path file) := by
  cases h : Package.inFile path file with
  | error cause =>
    have hofFile : Package.ofFile path file = pure (.error cause) := by
      rw [Package.ofFile, h]
    have hload : Package.load path file = pure (.error { step := .loading path, cause }) := by
      rw [Package.load, hofFile]
      rfl
    have hgenerate : generateFromFile path file =
        pure (.error { step := .loading path, cause }) := by
      rw [generateFromFile, hload]
      rfl
    constructor <;> simp only [hofFile, hload, hgenerate] <;> rfl
  | ok p =>
    have hofFile : Package.ofFile path file =
        { value := .ok p, events := [Package.loadedEvent path p] } := by
      rw [Package.ofFile, h]
      rfl
    have hload : Package.load path file =
        { value := .ok p, events := [Package.loadedEvent path p] } := by
      rw [Package.load, hofFile]
      rfl
    have hgenerate : generateFromFile path file =
        { value := .ok p.documentTraced.value
          events := Package.loadedEvent path p :: p.documentTraced.events } := by
      rw [generateFromFile, hload]
      simp [bind, pure]
    obtain ⟨hvalue, hentries⟩ := p.renderedAs_document
    refine ⟨?_, ?_, ?_, ?_, ?_, ?_⟩
    · rw [hofFile]
    · rw [hload]
      rfl
    · rw [hgenerate, hvalue]
      rfl
    · rw [hofFile]
      rfl
    · rw [hload]
      rfl
    · rw [hgenerate, List.map_cons, hentries]
      rfl

theorem generatesAs_parse (format : DescriptorFormat) (content : String) :
    GeneratesAs format content (format.parse content) := by
  cases h : format.parse content with
  | error cause =>
    have hgenerate : generateFromText format content =
        pure (.error { step := .reading format, cause }) := by
      rw [generateFromText, h]
    constructor <;> rw [hgenerate] <;> rfl
  | ok p =>
    have hgenerate : generateFromText format content =
        { value := .ok p.documentTraced.value, events := p.documentTraced.events } := by
      rw [generateFromText, h]
      simp [bind, pure]
    obtain ⟨hvalue, hentries⟩ := p.renderedAs_document
    constructor
    · rw [hgenerate, hvalue]
      rfl
    · rw [hgenerate, hentries]
      rfl

/-- Loading a file agrees with reading its text. A path with another extension is rejected whatever
is in the file, then a file without text, and behind that everything is as for the text alone but
for the step that an error names and for what is recorded of the loaded package. -/
theorem loading_agrees (path : String) (file : FileState) :
    match DescriptorFormat.ofPath path, file.text? with
    | .error rejected, _ =>
      rejected = .unsupportedExtension path ∧
        ∀ other : FileState, LoadsAs path other (.error (.unsupportedExtension path))
    | .ok _, none => LoadsAs path file (.error (.io path))
    | .ok format, some content =>
      LoadsAs path file (format.parse content) ∧
        GeneratesAs format content (format.parse content) ∧
        ∀ e, format.parse content = .error e → e = format.error := by
  cases hpath : DescriptorFormat.ofPath path with
  | error rejected =>
    obtain rfl := DescriptorFormat.eq_of_ofPath_error hpath
    refine ⟨rfl, fun other => ?_⟩
    rw [← Package.inFile_of_rejected hpath other]
    exact loadsAs_inFile path other
  | ok format =>
    cases htext : file.text? with
    | none =>
      change LoadsAs path file (.error (.io path))
      rw [← Package.inFile_of_unreadable hpath htext]
      exact loadsAs_inFile path file
    | some content =>
      refine ⟨?_, generatesAs_parse format content, fun e => DescriptorFormat.eq_of_parse_error⟩
      rw [← Package.inFile_of_content hpath htext]
      exact loadsAs_inFile path file

/-- The extension is looked at first, so a directory with a foreign name is no unreadable file. -/
example : (generateFromFile "p.yaml" .directory).value =
    .error { step := .loading "p.yaml", cause := .unsupportedExtension "p.yaml" } := by
  decide

end SwiftManifest
