import RecordSearch.Alignment
import RecordSearch.Command.Arguments
import RecordSearch.Command.Inputs
import RecordSearch.Command.Invocation
import RecordSearch.Command.QueryFile
import RecordSearch.Command.Run
import RecordSearch.Command.Session
import RecordSearch.Criteria
import RecordSearch.Database
import RecordSearch.Document
import RecordSearch.Document.Criteria
import RecordSearch.Document.Description
import RecordSearch.Document.Layout
import RecordSearch.Document.Presentation
import RecordSearch.Document.Selection
import RecordSearch.Document.View
import RecordSearch.Error
import RecordSearch.Field.Basic
import RecordSearch.Field.Json
import RecordSearch.Field.Search
import RecordSearch.Flat
import RecordSearch.Json.Basic
import RecordSearch.Json.Binary64
import RecordSearch.Json.Binary64.Shortest
import RecordSearch.Json.Expect
import RecordSearch.Json.Fault
import RecordSearch.Json.Pointer
import RecordSearch.Json.Printer
import RecordSearch.Json.Reader.Basic
import RecordSearch.Json.Reader.Number
import RecordSearch.Json.Reader.Quoted
import RecordSearch.Json.Reader.Value
import RecordSearch.Json.Shape
import RecordSearch.Json.Source
import RecordSearch.Lookup
import RecordSearch.Main
import RecordSearch.Operator
import RecordSearch.Path
import RecordSearch.Preferences
import RecordSearch.Proofs.Alignment.Callbacks
import RecordSearch.Proofs.Alignment.Equality
import RecordSearch.Proofs.Alignment.Report
import RecordSearch.Proofs.Alignment.Strictness
import RecordSearch.Proofs.Alignment.Walk
import RecordSearch.Proofs.Database.Algebra
import RecordSearch.Proofs.Database.Growth
import RecordSearch.Proofs.Database.LetterCase
import RecordSearch.Proofs.Database.Records
import RecordSearch.Proofs.Database.Search
import RecordSearch.Proofs.Database.Written
import RecordSearch.Proofs.Document.Definitions
import RecordSearch.Proofs.Document.Description
import RecordSearch.Proofs.Document.Entries
import RecordSearch.Proofs.Document.Layout
import RecordSearch.Proofs.Document.Loading
import RecordSearch.Proofs.Document.Modes
import RecordSearch.Proofs.Document.Queries
import RecordSearch.Proofs.Document.Rendering
import RecordSearch.Proofs.Document.Required
import RecordSearch.Proofs.Document.Selection
import RecordSearch.Proofs.Document.Settings
import RecordSearch.Proofs.Document.Spellings
import RecordSearch.Proofs.Field.Choices
import RecordSearch.Proofs.Field.Fitting
import RecordSearch.Proofs.Field.Testing
import RecordSearch.Proofs.Field.Written
import RecordSearch.Proofs.Flat.Consistent
import RecordSearch.Proofs.Flat.Leaves
import RecordSearch.Proofs.Flat.Levels
import RecordSearch.Proofs.Flat.Lookup
import RecordSearch.Proofs.Flat.Pruning
import RecordSearch.Proofs.Flat.Reached
import RecordSearch.Proofs.Flat.Stepwise
import RecordSearch.Proofs.Json.Alike
import RecordSearch.Proofs.Json.Branches
import RecordSearch.Proofs.Json.Grammar
import RecordSearch.Proofs.Json.Numerals
import RecordSearch.Proofs.Json.Parts
import RecordSearch.Proofs.Json.Quotes
import RecordSearch.Proofs.Json.Reading
import RecordSearch.Proofs.Json.Shape
import RecordSearch.Proofs.Json.Texts
import RecordSearch.Proofs.Path
import RecordSearch.Proofs.Repetition
import RecordSearch.Proofs.Template.Decoding
import RecordSearch.Proofs.Template.Failures
import RecordSearch.Proofs.Template.Grammar
import RecordSearch.Proofs.Template.NormalForm
import RecordSearch.Proofs.Template.Padding
import RecordSearch.Proofs.Template.Placeholders
import RecordSearch.Proofs.Template.Relevance
import RecordSearch.Proofs.Template.Size
import RecordSearch.Proofs.Template.Slots
import RecordSearch.Proofs.Traversal
import RecordSearch.Proofs.Version
import RecordSearch.Scalar
import RecordSearch.Template.Basic
import RecordSearch.Template.Cache
import RecordSearch.Template.FormatSpec
import RecordSearch.Template.Json
import RecordSearch.Template.Literal
import RecordSearch.Template.Render
import RecordSearch.Text.Blank
import RecordSearch.Text.Cased
import RecordSearch.Text.CodePoints
import RecordSearch.Text.Decimal
import RecordSearch.Text.Lines
import RecordSearch.Text.LowerCase
import RecordSearch.Text.Part
import RecordSearch.Text.Quoted
import RecordSearch.Text.Style
import RecordSearch.Version
import RecordSearch.Warning
import RecordSearch.Workspace.Basic
import RecordSearch.Workspace.Expansion
import RecordSearch.Workspace.Glob
import RecordSearch.Proofs.Json.ShapeTexts
import RecordSearch.Proofs.Command.Decoding
