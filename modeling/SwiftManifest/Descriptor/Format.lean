import SwiftManifest.Descriptor.Package
import SwiftManifest.Json.Printer
import SwiftManifest.Json.Reader
import SwiftManifest.Toml.Reader

/-! Descriptor texts: the two notations, how the name of a file tells them apart, and why reading a
descriptor can fail. Paths are texts with slashes between their components: a path with bytes that
are no Unicode, and so an extension that could not be compared at all, is not expressed here. -/

namespace SwiftManifest

inductive DescriptorError where
  | toml
  | json
  | unsupportedExtension (path : String)
  | io (path : String)
  deriving DecidableEq, Repr

namespace DescriptorError

def message : DescriptorError → String
  | .toml => "failed to parse TOML descriptor"
  | .json => "failed to parse JSON descriptor"
  | .unsupportedExtension path =>
    "unsupported descriptor `" ++ path ++ "`, expected a .toml or .json file"
  | .io path => "failed to read descriptor " ++ path

end DescriptorError

/-- The parts of a path between its slashes. -/
def components : Text → List Text
  | [] => [[]]
  | '/' :: cs => [] :: components cs
  | c :: cs =>
    match components cs with
    | [] => [[c]]
    | part :: parts => (c :: part) :: parts

/-- The last component that names something; one that leads back up is no name. -/
def fileName? (path : Text) : Option Text :=
  match ((components path).filter fun part => part ≠ [] ∧ part ≠ ['.']).getLast? with
  | some ['.', '.'] => none
  | name => name

/-- What follows the last dot of a file name, unless that dot comes first. -/
def extension? (path : Text) : Option Text := do
  let name ← fileName? path
  match name.reverse.dropWhile (· ≠ '.') with
  | '.' :: _ :: _ => some (name.reverse.takeWhile (· ≠ '.')).reverse
  | _ => none

inductive DescriptorFormat where
  | toml | json
  deriving DecidableEq, Repr

namespace DescriptorFormat

def label : DescriptorFormat → String
  | .toml => "toml"
  | .json => "json"

def place : DescriptorFormat → Place
  | .toml => .toml
  | .json => .json

def error : DescriptorFormat → DescriptorError
  | .toml => .toml
  | .json => .json

def read : DescriptorFormat → Text → Option Datum
  | .toml => Toml.read
  | .json => Json.read

def ofPath (path : String) : Except DescriptorError DescriptorFormat :=
  if extension? path.toList = some "toml".toList then .ok .toml
  else if extension? path.toList = some "json".toList then .ok .json
  else .error (.unsupportedExtension path)

/-- Reads a value of any kind from a descriptor text. -/
def readAs (α : Type) [Codec α] (format : DescriptorFormat) (content : String) :
    Except DescriptorError α :=
  match (format.read content.toList).bind (decode format.place) with
  | some a => .ok a
  | none => .error format.error

def parse (format : DescriptorFormat) (content : String) : Except DescriptorError Package :=
  format.readAs Package content

end DescriptorFormat

/-- The JSON text of a value on one line. -/
def compactJson {α : Type} [Codec α] (a : α) : Text := Json.compact (encode a)

namespace Package

/-- The JSON text of a package, with one member to a line. -/
def snapshot (p : Package) : Text := Json.pretty p.encode

end Package

end SwiftManifest
