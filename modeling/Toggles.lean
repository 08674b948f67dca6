import Toggles.Artifact
import Toggles.Command.Basic
import Toggles.Command.Failure
import Toggles.Command.Input
import Toggles.Command.Parse
import Toggles.Command.Run
import Toggles.Declaration.Error
import Toggles.Declaration.Grammar
import Toggles.Declaration.Lexeme
import Toggles.Declaration.Numeral
import Toggles.Declaration.Reading
import Toggles.Declaration.Schema
import Toggles.Declaration.Source
import Toggles.Declaration.Token
import Toggles.Declaration.Tree
import Toggles.Definition.Defaults
import Toggles.Definition.Outline
import Toggles.Definition.Parameter
import Toggles.Definition.Reader
import Toggles.Definition.Schema
import Toggles.Definition.Tree
import Toggles.Doc.Comment
import Toggles.Doc.TagValue
import Toggles.Document.Basic
import Toggles.Document.Difference
import Toggles.Document.Feature
import Toggles.Document.Flattened
import Toggles.Document.Query
import Toggles.Document.Registry
import Toggles.Event
import Toggles.Files.Disk
import Toggles.Files.Fault
import Toggles.Files.Path
import Toggles.Files.Workspace
import Toggles.Json.Basic
import Toggles.Json.Canonical
import Toggles.Json.Compact
import Toggles.Json.Decode
import Toggles.Json.Pretty
import Toggles.Json.Reader
import Toggles.Json.Token
import Toggles.Main
import Toggles.Numeric.Binary64
import Toggles.Numeric.Compare
import Toggles.Numeric.Decimal
import Toggles.Numeric.Layout
import Toggles.Numeric.Shortest
import Toggles.Ordered
import Toggles.Proofs.Document
import Toggles.Proofs.Json
import Toggles.Proofs.Ordered
import Toggles.Proofs.Path
import Toggles.Proofs.Success
import Toggles.Reading
import Toggles.Settings.Basic
import Toggles.Settings.Check
import Toggles.Settings.Decode
import Toggles.Settings.Example
import Toggles.Text.Blank
import Toggles.Text.CharSet
import Toggles.Text.Hexadecimal
import Toggles.Text.Hidden
import Toggles.Text.Letters
import Toggles.Text.Lines
import Toggles.Text.Quoted
import Toggles.Text.Size
import Toggles.Text.Split
import Toggles.Toml.Basic
import Toggles.Toml.Document
import Toggles.Toml.Layout
import Toggles.Toml.Text
import Toggles.Toml.Unquoted
import Toggles.Toml.Value
import Toggles.Validation.Check
import Toggles.Validation.Schema
import Toggles.Validation.Violation
import Toggles.Proofs.Defaults
import Toggles.Proofs.Definition
import Toggles.Proofs.Difference
import Toggles.Proofs.Validation
import Toggles.Proofs.DefaultValidity
import Toggles.Proofs.Rendering
import Toggles.Proofs.Lexing
import Toggles.Proofs.Legibility
import Toggles.Proofs.Parsing
import Toggles.Proofs.RoundTrip
import Toggles.Proofs.Inhabitants
import Toggles.Proofs.WellFormed
import Toggles.Proofs.Decoding
import Toggles.Proofs.FlattenedForm
import Toggles.Proofs.NestedForm
import Toggles.Proofs.NormalForm
import Toggles.Proofs.Fidelity
import Toggles.Proofs.Nesting
import Toggles.Proofs.ValidDocuments
import Toggles.Proofs.SameState
import Toggles.Proofs.Height
import Toggles.Proofs.Depth
import Toggles.Proofs.ArtifactDepth
import Toggles.Proofs.Seam
import Toggles.Proofs.Continuation
import Toggles.Proofs.Independence
import Toggles.Proofs.Registry
import Toggles.Proofs.Annotation
import Toggles.Proofs.LineEndings
import Toggles.Proofs.Checkouts
import Toggles.Proofs.TagValues
import Toggles.Proofs.Descent
import Toggles.Proofs.ExplicitChildren
import Toggles.Proofs.Reversal
import Toggles.Proofs.Frames
import Toggles.Proofs.Folders
import Toggles.Proofs.Runs
import Toggles.Proofs.ArtifactFiles
import Toggles.Proofs.Compilation
import Toggles.Proofs.ParameterChanges
import Toggles.Proofs.ReportedPaths
import Toggles.Proofs.Listing
import Toggles.Proofs.Slices
import Toggles.Proofs.Offsets
import Toggles.Proofs.Spans
import Toggles.Proofs.Literals
import Toggles.Proofs.QuotedText
import Toggles.Proofs.Rounding
import Toggles.Proofs.DecimalText
import Toggles.Proofs.Numerals
import Toggles.Proofs.NumberTypes
import Toggles.Proofs.LiteralUnions
import Toggles.Proofs.ObjectSchemas
import Toggles.Proofs.Refusals
import Toggles.Proofs.Interspersed
import Toggles.Proofs.Signatures
import Toggles.Proofs.DroppedSignatures
import Toggles.Proofs.Explanations
import Toggles.Proofs.AllowedValues
import Toggles.Proofs.Constraints
import Toggles.Proofs.CommentLayout
import Toggles.Proofs.OutlineTokens
import Toggles.Proofs.PathLimits
import Toggles.Proofs.VersionNames
import Toggles.Proofs.WrittenArtifacts
import Toggles.Proofs.Calls
import Toggles.Proofs.CursorGrammar
import Toggles.Proofs.CursorReading
import Toggles.Proofs.CursorRules
import Toggles.Proofs.OpenCalls
import Toggles.Proofs.CursorProgress
