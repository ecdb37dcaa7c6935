import SwiftManifest.Configuration.Body
import SwiftManifest.Configuration.Call
import SwiftManifest.Configuration.Dependency
import SwiftManifest.Configuration.Package
import SwiftManifest.Configuration.Platform
import SwiftManifest.Configuration.Setting
import SwiftManifest.Configuration.Target
import SwiftManifest.Datum.Basic
import SwiftManifest.Descriptor.Capability
import SwiftManifest.Descriptor.Codec
import SwiftManifest.Descriptor.Dependency
import SwiftManifest.Descriptor.Format
import SwiftManifest.Descriptor.Load
import SwiftManifest.Descriptor.Package
import SwiftManifest.Descriptor.Platform
import SwiftManifest.Descriptor.Record
import SwiftManifest.Descriptor.Setting
import SwiftManifest.Descriptor.Target
import SwiftManifest.Descriptor.Variant
import SwiftManifest.Event
import SwiftManifest.Expression.Argument
import SwiftManifest.Expression.Basic
import SwiftManifest.Expression.Dependency
import SwiftManifest.Expression.Package
import SwiftManifest.Expression.Platform
import SwiftManifest.Expression.Setting
import SwiftManifest.Expression.Target
import SwiftManifest.Json.Numeral
import SwiftManifest.Json.Printer
import SwiftManifest.Json.Reader
import SwiftManifest.Json.String
import SwiftManifest.Model.Dependency
import SwiftManifest.Model.Deployment
import SwiftManifest.Model.Language
import SwiftManifest.Model.Package
import SwiftManifest.Model.Platform
import SwiftManifest.Model.Setting
import SwiftManifest.Model.Target
import SwiftManifest.Number.Double
import SwiftManifest.Requirement.Compile
import SwiftManifest.Requirement.Matching
import SwiftManifest.Requirement.Operator
import SwiftManifest.Symbolic
import SwiftManifest.Text.Call
import SwiftManifest.Text.Digit
import SwiftManifest.Text.Lines
import SwiftManifest.Text.Quoted
import SwiftManifest.Toml.Number
import SwiftManifest.Toml.Reader
import SwiftManifest.Toml.Space
import SwiftManifest.Toml.String
import SwiftManifest.Toml.Table
import SwiftManifest.Proofs.Json.Token
import SwiftManifest.Proofs.Datum.Textual
import SwiftManifest.Proofs.Json.RoundTrip
import SwiftManifest.Proofs.Descriptor.Lawful
import SwiftManifest.Proofs.Descriptor.Platform
import SwiftManifest.Proofs.Descriptor.Setting
import SwiftManifest.Proofs.Descriptor.Dependency
import SwiftManifest.Proofs.Descriptor.Target
import SwiftManifest.Proofs.Descriptor.RoundTrip
import SwiftManifest.Proofs.Text.Quoted
import SwiftManifest.Proofs.Text.Token
import SwiftManifest.Proofs.Text.Block
import SwiftManifest.Proofs.Text.Indent
import SwiftManifest.Proofs.Text.Lines
import SwiftManifest.Proofs.Text.Outdent
import SwiftManifest.Proofs.Requirement.Tokens
import SwiftManifest.Proofs.Expression.Tokens
import SwiftManifest.Proofs.Expression.Form
import SwiftManifest.Proofs.Expression.Reading
import SwiftManifest.Proofs.Manifest.Traversal
import SwiftManifest.Proofs.Manifest.WellFormed
import SwiftManifest.Proofs.Requirement.Injective
import SwiftManifest.Proofs.Requirement.Occurrences
import SwiftManifest.Proofs.Requirement.FirstFree
import SwiftManifest.Proofs.Expression.MapText
import SwiftManifest.Proofs.Manifest.Replaced
import SwiftManifest.Proofs.Manifest.Forms
import SwiftManifest.Proofs.Manifest.Determined
import SwiftManifest.Proofs.Expression.Skeleton
import SwiftManifest.Proofs.Manifest.Skeleton
import SwiftManifest.Proofs.Expression.Nesting
import SwiftManifest.Proofs.Text.Brackets
import SwiftManifest.Proofs.Manifest.Nesting
import SwiftManifest.Proofs.Descriptor.Schema
import SwiftManifest.Proofs.Descriptor.Edit
import SwiftManifest.Proofs.Descriptor.Stable
import SwiftManifest.Proofs.Descriptor.Edited
import SwiftManifest.Proofs.Descriptor.Contained
import SwiftManifest.Proofs.Descriptor.Reloaded
import SwiftManifest.Proofs.Configuration.Run
import SwiftManifest.Proofs.Configuration.Configurable
import SwiftManifest.Proofs.Configuration.Reach
import SwiftManifest.Proofs.Configuration.Appended
import SwiftManifest.Proofs.Configuration.Interleaved
import SwiftManifest.Proofs.Configuration.Independent
import SwiftManifest.Toml.Printer
import SwiftManifest.Proofs.Datum.Tabular
import SwiftManifest.Proofs.Toml.Token
import SwiftManifest.Proofs.Toml.RoundTrip
import SwiftManifest.Proofs.Descriptor.Tabular
import SwiftManifest.Proofs.Descriptor.Formats
import SwiftManifest.Proofs.Requirement.Slices
import SwiftManifest.Proofs.Requirement.Separated
import SwiftManifest.Proofs.Descriptor.MemberOrder
import SwiftManifest.Proofs.Text.Frame
import SwiftManifest.Proofs.Expression.Block
import SwiftManifest.Proofs.Manifest.Entrywise
import SwiftManifest.Proofs.Expression.Events
import SwiftManifest.Proofs.Manifest.Trace
import SwiftManifest.Proofs.Configuration.Restricted
import SwiftManifest.Proofs.Descriptor.Loading
import SwiftManifest.Proofs.Text.Hanging
import SwiftManifest.Proofs.Text.Labels
import SwiftManifest.Proofs.Expression.Labels
import SwiftManifest.Proofs.Manifest.Labels
