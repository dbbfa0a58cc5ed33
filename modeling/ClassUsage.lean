import ClassUsage.Analysis
import ClassUsage.Code.Opcode
import ClassUsage.Collector
import ClassUsage.Command.Batch
import ClassUsage.Command.Options
import ClassUsage.Command.Run
import ClassUsage.DecodingError
import ClassUsage.Descriptor.Basic
import ClassUsage.Descriptor.Reader
import ClassUsage.Event.Basic
import ClassUsage.Event.Labels
import ClassUsage.Event.Operand
import ClassUsage.Event.Value
import ClassUsage.File.Load
import ClassUsage.File.Path
import ClassUsage.File.Tree
import ClassUsage.Json.Basic
import ClassUsage.Json.Literal
import ClassUsage.Json.Reader
import ClassUsage.Json.Token
import ClassUsage.Json.Writer
import ClassUsage.Log
import ClassUsage.Main
import ClassUsage.Mention
import ClassUsage.Name.Dotted
import ClassUsage.Name.Set
import ClassUsage.Number.Double
import ClassUsage.Number.Shortest
import ClassUsage.Report
import ClassUsage.Signature.Basic
import ClassUsage.Signature.Scanner
import ClassUsage.Text.Decimal
import ClassUsage.Text.Lines
import ClassUsage.Text.Printable
import ClassUsage.Text.Quoted
import ClassUsage.Text.Utf8
import ClassUsage.Trace.Annotations
import ClassUsage.Trace.Code
import ClassUsage.Trace.Constants
import ClassUsage.Trace.Elements
import ClassUsage.Trace.Fault
import ClassUsage.Trace.Lookup
import ClassUsage.Traversal
import ClassUsage.TypeConstant
import ClassUsage.Workspace
import ClassUsage.Proofs.Signature.Acceptance
import ClassUsage.Proofs.Signature.Unambiguous
import ClassUsage.Proofs.Signature.Decoding
import ClassUsage.Proofs.Descriptor.Reading
import ClassUsage.Proofs.Trace.Lookup
import ClassUsage.Proofs.Trace.Playback
import ClassUsage.Proofs.Trace.Naming
import ClassUsage.Proofs.Trace.Collected
import ClassUsage.Proofs.Trace.Pattern
import ClassUsage.Proofs.Trace.Outline
import ClassUsage.Proofs.Trace.Order
import ClassUsage.Proofs.Signature.Refusal
import ClassUsage.Proofs.Descriptor.Decoding
import ClassUsage.Proofs.Trace.Every
import ClassUsage.Proofs.Trace.Blame
import ClassUsage.Proofs.Trace.Faults
import ClassUsage.Proofs.Trace.Outcome
import ClassUsage.Proofs.Trace.Reordering
import ClassUsage.Proofs.Trace.OrderIndependence
import ClassUsage.Proofs.Workspace.Contribution
import ClassUsage.Proofs.Trace.Formation
import ClassUsage.Proofs.Trace.Visibility
import ClassUsage.Proofs.Workspace.Union
import ClassUsage.Proofs.Event.Parameters
import ClassUsage.Proofs.Trace.Contents
import ClassUsage.Proofs.Trace.Positions
import ClassUsage.Proofs.Descriptor.Splitting
import ClassUsage.Proofs.Signature.Erasure
import ClassUsage.Proofs.Signature.Agreement
import ClassUsage.Proofs.Descriptor.Constants
import ClassUsage.Proofs.Descriptor.InternalNames
import ClassUsage.Proofs.Workspace.Failure
import ClassUsage.Proofs.Trace.Likeness
import ClassUsage.Proofs.Trace.Versions
import ClassUsage.Proofs.Trace.Rereading
import ClassUsage.Proofs.Trace.SameWay
import ClassUsage.Proofs.Trace.Unnoticed
import ClassUsage.Proofs.Trace.Silence
import ClassUsage.Proofs.Trace.Unrecognised
import ClassUsage.Proofs.Workspace.Journal
import ClassUsage.Proofs.Workspace.Canonical
import ClassUsage.Proofs.Command.Composition
import ClassUsage.Proofs.Signature.Locality
import ClassUsage.Proofs.Signature.Descent
import ClassUsage.Proofs.Signature.SelfDelimiting
