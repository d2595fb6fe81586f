import RoutineBridge.Artifact.Basic
import RoutineBridge.Artifact.Emitter
import RoutineBridge.Artifact.Fixture
import RoutineBridge.Artifact.Schema
import RoutineBridge.Artifact.Wrapper
import RoutineBridge.Assembly.Basic
import RoutineBridge.Assembly.Conversion
import RoutineBridge.Assembly.Effects
import RoutineBridge.Assembly.Gathering
import RoutineBridge.Assembly.Schedule
import RoutineBridge.Catalog.Definition
import RoutineBridge.Catalog.Grouping
import RoutineBridge.Catalog.Inquiry
import RoutineBridge.Catalog.Resolver
import RoutineBridge.Catalog.Row
import RoutineBridge.Catalog.Signature
import RoutineBridge.Catalog.Snapshot
import RoutineBridge.Catalog.TypeSpec
import RoutineBridge.CommandLine.Arguments
import RoutineBridge.CommandLine.Files
import RoutineBridge.CommandLine.ReplaceRule
import RoutineBridge.CommandLine.Run
import RoutineBridge.CommandLine.Selection
import RoutineBridge.CommandLine.Workspace
import RoutineBridge.Identifier
import RoutineBridge.Json.Basic
import RoutineBridge.Json.Decode
import RoutineBridge.Json.Draft
import RoutineBridge.Json.Magnitude
import RoutineBridge.Json.Printer
import RoutineBridge.Layout.Basic
import RoutineBridge.Layout.Wire
import RoutineBridge.Main
import RoutineBridge.Model
import RoutineBridge.Model.Dump
import RoutineBridge.Model.Load
import RoutineBridge.OnceMap
import RoutineBridge.Options
import RoutineBridge.Proofs.Growth
import RoutineBridge.Proofs.Inquiry
import RoutineBridge.Proofs.Memory
import RoutineBridge.Proofs.Outline
import RoutineBridge.Proofs.Rebuild
import RoutineBridge.Proofs.References
import RoutineBridge.Proofs.Resolution
import RoutineBridge.Proofs.RowListing
import RoutineBridge.Proofs.Walk
import RoutineBridge.Routine.Basic
import RoutineBridge.Routine.Directive
import RoutineBridge.Routine.Doc
import RoutineBridge.SortedMap
import RoutineBridge.Source.Declaration
import RoutineBridge.Source.DirectiveLine
import RoutineBridge.Source.Package
import RoutineBridge.Source.Sections
import RoutineBridge.Source.Token
import RoutineBridge.Text.Ascii
import RoutineBridge.Text.Blank
import RoutineBridge.Text.CodePointSet
import RoutineBridge.Text.Decimal
import RoutineBridge.Text.Folding
import RoutineBridge.Text.Folding.Table
import RoutineBridge.Text.Like
import RoutineBridge.Text.Like.Size
import RoutineBridge.Text.Lines
import RoutineBridge.Text.Lowercase
import RoutineBridge.Text.Lowercase.Table
import RoutineBridge.Text.Quoted
import RoutineBridge.Text.Quoted.Table
import RoutineBridge.Text.Word
import RoutineBridge.Text.Word.Table
import RoutineBridge.Types.Composite
import RoutineBridge.Types.Digits
import RoutineBridge.Types.Name
import RoutineBridge.Types.Scalar
import RoutineBridge.Types.Table
import RoutineBridge.Proofs.Extensionality
import RoutineBridge.Proofs.Answers
import RoutineBridge.Proofs.Fetching
import RoutineBridge.Proofs.Kinds
import RoutineBridge.Proofs.Closedness
import RoutineBridge.Proofs.Interleaving
import RoutineBridge.Proofs.Scheduling
import RoutineBridge.Proofs.Sequential
import RoutineBridge.Proofs.Effects
import RoutineBridge.Proofs.Uptake
import RoutineBridge.Proofs.Accounting
import RoutineBridge.Proofs.Parameters
import RoutineBridge.Proofs.ExposedNames
import RoutineBridge.Proofs.ProgramText
import RoutineBridge.Proofs.Agreement
import RoutineBridge.Proofs.Written
import RoutineBridge.Proofs.Unfolding
import RoutineBridge.Proofs.Messages
import RoutineBridge.Proofs.MessageNames
import RoutineBridge.Proofs.Sampling
import RoutineBridge.Proofs.WireShapes
import RoutineBridge.Proofs.Tokens
import RoutineBridge.Proofs.Documentation
import RoutineBridge.Proofs.GeneratedNames
import RoutineBridge.Proofs.SampleForms
import RoutineBridge.Proofs.DirectiveLines
import RoutineBridge.Proofs.Headings
import RoutineBridge.Proofs.Collecting
import RoutineBridge.Proofs.Attachment
import RoutineBridge.Proofs.SectionLayout
import RoutineBridge.Proofs.Pruning
import RoutineBridge.Proofs.Refusals
import RoutineBridge.Proofs.Overloads
import RoutineBridge.Proofs.Reports
import RoutineBridge.Proofs.Verdicts
import RoutineBridge.Proofs.Renaming
import RoutineBridge.Proofs.DirectiveOrder
import RoutineBridge.Proofs.OnceCells
import RoutineBridge.Proofs.Callers
import RoutineBridge.Proofs.FieldNames
import RoutineBridge.Proofs.Decimals
import RoutineBridge.Proofs.NumberSamples
import RoutineBridge.Proofs.RustWords
import RoutineBridge.Proofs.LegalNames
import RoutineBridge.Proofs.WireRanges
import RoutineBridge.Proofs.ByteOrder
import RoutineBridge.Proofs.TableHistory
import RoutineBridge.Proofs.Trimming
import RoutineBridge.Proofs.CommentLines
import RoutineBridge.Proofs.LikeMatching
import RoutineBridge.Proofs.RegularExpressions
import RoutineBridge.Proofs.ReferenceEngine
import RoutineBridge.Proofs.NameSelection
