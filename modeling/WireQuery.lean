import WireQuery.CommandLine.Command
import WireQuery.CommandLine.Execute
import WireQuery.CommandLine.Session
import WireQuery.CommandLine.Switch
import WireQuery.CommandLine.Workspace
import WireQuery.Compile.Basic
import WireQuery.Compile.Error
import WireQuery.Compile.Requirement
import WireQuery.Compile.VariableUses
import WireQuery.Document.Basic
import WireQuery.Document.Printer
import WireQuery.Json.Basic
import WireQuery.Json.Error
import WireQuery.Json.Printer
import WireQuery.Json.Reader
import WireQuery.Keyed
import WireQuery.Main
import WireQuery.Name
import WireQuery.Number.Binary64
import WireQuery.Number.Decimal
import WireQuery.Number.Layout
import WireQuery.PascalCase
import WireQuery.Proofs.Compile.Acceptance
import WireQuery.Proofs.Compile.Enumeration
import WireQuery.Proofs.Compile.FirstFault
import WireQuery.Proofs.Compile.FirstUse
import WireQuery.Proofs.Compile.FirstViolation
import WireQuery.Proofs.Compile.Met
import WireQuery.Proofs.Compile.Place
import WireQuery.Proofs.Compile.Placed
import WireQuery.Proofs.Compile.Redescribed
import WireQuery.Proofs.Compile.Uses
import WireQuery.Proofs.Document.Exactness
import WireQuery.Proofs.Document.Grammar
import WireQuery.Proofs.Document.Parts
import WireQuery.Proofs.Document.Reader
import WireQuery.Proofs.Document.RoundTrip
import WireQuery.Proofs.Document.Spelling
import WireQuery.Proofs.Document.Token
import WireQuery.Proofs.Keyed
import WireQuery.Proofs.Outcome
import WireQuery.Proofs.Number.Finite
import WireQuery.Proofs.Request.Bound
import WireQuery.Proofs.Result.Decoding
import WireQuery.Proofs.Result.Fits
import WireQuery.Proofs.Result.Projection
import WireQuery.Proofs.Service.Basic
import WireQuery.Proofs.Service.Meaning
import WireQuery.Proofs.Spec.WellKeyed
import WireQuery.Proofs.Variables.Declared
import WireQuery.Proofs.Variables.FirstOrder
import WireQuery.Proofs.Variables.References
import WireQuery.Proofs.WireType.Form
import WireQuery.Proofs.WireType.RoundTrip
import WireQuery.Request.Basic
import WireQuery.Request.Bindings
import WireQuery.Request.Run
import WireQuery.Result.Decoder
import WireQuery.Result.Shape
import WireQuery.Result.Value
import WireQuery.Scalar.Kind
import WireQuery.Scalar.Reader
import WireQuery.Scalar.Table
import WireQuery.Spec.Basic
import WireQuery.Spec.Reader
import WireQuery.Text.Quoted
import WireQuery.Typings.Declaration
import WireQuery.Typings.Interfaces
import WireQuery.WireType.Basic
import WireQuery.WireType.Reader
import WireQuery.Proofs.Result.Faithful
import WireQuery.Proofs.Spec.Grammar
import WireQuery.Proofs.Spec.Parts
import WireQuery.Proofs.Spec.Reading
import WireQuery.Proofs.Spec.Text
import WireQuery.Proofs.Text.Scanner
import WireQuery.Proofs.TypeScript.Meaning
import WireQuery.Proofs.Typings.FreshName
import WireQuery.Proofs.Typings.Levels
import WireQuery.Proofs.Typings.Names
import WireQuery.Proofs.Typings.Readable
import WireQuery.Proofs.Typings.Sound
import WireQuery.Proofs.Result.PathText
import WireQuery.Proofs.Result.Defect
import WireQuery.Proofs.Result.FirstDefect
import WireQuery.Proofs.Result.Located
import WireQuery.Proofs.Request.Built
import WireQuery.Proofs.Compile.Normalized
import WireQuery.Proofs.Compile.Recovery
import WireQuery.Proofs.Compile.Lockstep
import WireQuery.Proofs.WireType.Refused
import WireQuery.Proofs.Json.Normal
import WireQuery.Proofs.Result.Idempotent
import WireQuery.Proofs.PascalCase
import WireQuery.Proofs.Typings.Valid
import WireQuery.Proofs.Result.Levels
import WireQuery.Proofs.Typings.Closed
import WireQuery.Proofs.Typings.Bound
import WireQuery.Proofs.Json.RoundTrip
import WireQuery.Proofs.Spec.Written
import WireQuery.Proofs.Document.Inline
import WireQuery.Proofs.Document.Layout
import WireQuery.Proofs.Request.Interleaving
import WireQuery.Proofs.Compile.Inside
import WireQuery.Proofs.Compile.Leaves
import WireQuery.Proofs.Reordered
import WireQuery.Proofs.Spec.Reordered
import WireQuery.Proofs.Compile.Reordered
import WireQuery.Proofs.Result.Reordered
import WireQuery.Proofs.Json.FirstMember
import WireQuery.Proofs.CommandLine.World
import WireQuery.Proofs.CommandLine.Agreement
import WireQuery.Proofs.CommandLine.Inputs
import WireQuery.Proofs.CommandLine.Delivery
import WireQuery.Proofs.WireType.Modifiers
import WireQuery.Proofs.Text.ByteOrder
import WireQuery.Proofs.Request.Verdict
import WireQuery.Proofs.Result.Unselected
import WireQuery.Proofs.PascalCase.Again
import WireQuery.Proofs.Typings.Naming
import WireQuery.Proofs.CommandLine.Events
import WireQuery.Proofs.CommandLine.StandardInput
import WireQuery.Proofs.Variables.History
