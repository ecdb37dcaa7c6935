import SwiftManifest.Descriptor.Format
import SwiftManifest.Expression.Package

/-! Loading descriptors from files and generating manifests from descriptors. -/

namespace SwiftManifest

/-- What a path leads to in the file system. -/
inductive FileState where
  | missing
  | directory
  | content (bytes : ByteArray)

namespace FileState

def text? : FileState → Option String
  | .content bytes => String.fromUTF8? bytes
  | _ => none

end FileState

/-- What was being done when a descriptor failed. -/
inductive GenerationStep where
  | reading (format : DescriptorFormat)
  | loading (path : String)
  deriving DecidableEq, Repr

structure GenerationError where
  step : GenerationStep
  cause : DescriptorError
  deriving DecidableEq, Repr

namespace GenerationError

def message (e : GenerationError) : String :=
  match e.step with
  | .reading .toml => "invalid TOML package descriptor"
  | .reading .json => "invalid JSON package descriptor"
  | .loading path => "failed to load package descriptor: " ++ path

end GenerationError

namespace Package

/-- The package in a file. The extension is checked before the file is looked at. -/
def inFile (path : String) (file : FileState) : Except DescriptorError Package := do
  let format ← DescriptorFormat.ofPath path
  match file.text? with
  | some content => format.parse content
  | none => .error (.io path)

def loadedEvent (path : String) (p : Package) : Event :=
  .loadedDescriptor path p.name p.targets.length

/-- Reads a package from a file; only success is reported. -/
def ofFile (path : String) (file : FileState) : Traced (Except DescriptorError Package) :=
  match inFile path file with
  | .ok p => do
    Traced.emit (loadedEvent path p)
    return .ok p
  | .error e => pure (.error e)

/-- Reads a package from a file as a step of generating its manifest. -/
def load (path : String) (file : FileState) : Traced (Except GenerationError Package) := do
  match ← ofFile path file with
  | .ok p => return .ok p
  | .error cause => return .error { step := .loading path, cause }

end Package

/-- The manifest of the package in a descriptor text. -/
def generateFromText (format : DescriptorFormat) (content : String) :
    Traced (Except GenerationError Text) :=
  match format.parse content with
  | .ok p => do return .ok (← p.documentTraced)
  | .error cause => pure (.error { step := .reading format, cause })

/-- The manifest of the package in a descriptor file. -/
def generateFromFile (path : String) (file : FileState) :
    Traced (Except GenerationError Text) := do
  match ← Package.load path file with
  | .ok p => return .ok (← p.documentTraced)
  | .error e => return .error e

end SwiftManifest
