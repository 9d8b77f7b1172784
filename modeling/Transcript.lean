import Transcript.Bindings
import Transcript.Command
import Transcript.Compare.BlankLine
import Transcript.Compare.Check
import Transcript.Compare.Difference
import Transcript.Decimal.Basic
import Transcript.Decimal.Double
import Transcript.Diff.Hunk
import Transcript.Diff.Script
import Transcript.Doc.Directive
import Transcript.Doc.Document
import Transcript.Doc.Line
import Transcript.Doc.OfText
import Transcript.File.Harness
import Transcript.File.Pattern
import Transcript.File.Run
import Transcript.File.Tree
import Transcript.Flag.Basic
import Transcript.Flag.Override
import Transcript.Lang.Call
import Transcript.Lang.Compile
import Transcript.Lang.Container
import Transcript.Lang.Eval
import Transcript.Lang.ExceptionKind
import Transcript.Lang.Interpreter
import Transcript.Lang.Lexer
import Transcript.Lang.Loop
import Transcript.Lang.Number
import Transcript.Lang.Operation
import Transcript.Lang.Order
import Transcript.Lang.Problem
import Transcript.Lang.Reader
import Transcript.Lang.Run
import Transcript.Lang.Show
import Transcript.Lang.Task
import Transcript.Lang.Token
import Transcript.Lang.Tree
import Transcript.Lang.Value
import Transcript.Lang.World
import Transcript.Main
import Transcript.Markdown.Block
import Transcript.Markdown.Chunk
import Transcript.Markdown.Cursor
import Transcript.Markdown.Inline
import Transcript.Markdown.Link
import Transcript.Markdown.Marker
import Transcript.Markdown.Reader
import Transcript.Markdown.Reference
import Transcript.Markdown.Table.CharacterName
import Transcript.Markdown.Tag
import Transcript.Path
import Transcript.Proofs.Both
import Transcript.Proofs.Compare.BlankLine
import Transcript.Proofs.Compare.Filling
import Transcript.Proofs.Compare.Complete
import Transcript.Proofs.Compare.Literal
import Transcript.Proofs.Compare.Loosen
import Transcript.Proofs.Compare.Precision
import Transcript.Proofs.Compare.Seam
import Transcript.Proofs.Doc.Directive
import Transcript.Proofs.Doc.Draft
import Transcript.Proofs.Doc.Order
import Transcript.Proofs.Doc.Outline
import Transcript.Proofs.Doc.Part
import Transcript.Proofs.Doc.Tree
import Transcript.Proofs.Except
import Transcript.Proofs.File.CarryOver
import Transcript.Proofs.File.FailFast
import Transcript.Proofs.File.Shared
import Transcript.Proofs.File.Visits
import Transcript.Proofs.Flag.History
import Transcript.Proofs.Flag.Parts
import Transcript.Proofs.Flag.Text
import Transcript.Proofs.Lang.Accept
import Transcript.Proofs.Lang.Agree
import Transcript.Proofs.Lang.Await
import Transcript.Proofs.Lang.Beside
import Transcript.Proofs.Lang.Binding
import Transcript.Proofs.Lang.Calculation
import Transcript.Proofs.Lang.Cancellation
import Transcript.Proofs.Lang.Circular
import Transcript.Proofs.Lang.Coherence
import Transcript.Proofs.Lang.Conversion
import Transcript.Proofs.Lang.Data
import Transcript.Proofs.Lang.Datum
import Transcript.Proofs.Lang.DatumText
import Transcript.Proofs.Lang.DatumValue
import Transcript.Proofs.Lang.Depth
import Transcript.Proofs.Lang.Dictionary
import Transcript.Proofs.Lang.Division
import Transcript.Proofs.Lang.Drive
import Transcript.Proofs.Lang.EmptyLine
import Transcript.Proofs.Lang.Equality
import Transcript.Proofs.Lang.Escape
import Transcript.Proofs.Lang.Evaluation
import Transcript.Proofs.Lang.Gather
import Transcript.Proofs.Lang.Grammar
import Transcript.Proofs.Lang.History
import Transcript.Proofs.Lang.Idle
import Transcript.Proofs.Lang.Jump
import Transcript.Proofs.Lang.Keep
import Transcript.Proofs.Lang.Law
import Transcript.Proofs.Lang.Ledger
import Transcript.Proofs.Lang.Level
import Transcript.Proofs.Lang.Lexed
import Transcript.Proofs.Lang.Link
import Transcript.Proofs.Lang.Literal
import Transcript.Proofs.Lang.LogicalLine
import Transcript.Proofs.Lang.Loop
import Transcript.Proofs.Lang.MakesExpr
import Transcript.Proofs.Lang.MakesStmt
import Transcript.Proofs.Lang.Membership
import Transcript.Proofs.Lang.Nesting
import Transcript.Proofs.Lang.Outcome
import Transcript.Proofs.Lang.Program
import Transcript.Proofs.Lang.Ranking
import Transcript.Proofs.Lang.Reach
import Transcript.Proofs.Lang.Rebinding
import Transcript.Proofs.Lang.Report
import Transcript.Proofs.Lang.Reread
import Transcript.Proofs.Lang.Rows
import Transcript.Proofs.Lang.Scan
import Transcript.Proofs.Lang.Sequence
import Transcript.Proofs.Lang.Simple
import Transcript.Proofs.Lang.Sorting
import Transcript.Proofs.Lang.Soundness
import Transcript.Proofs.Lang.SourceName
import Transcript.Proofs.Lang.Spell
import Transcript.Proofs.Lang.Suites
import Transcript.Proofs.Lang.TaskState
import Transcript.Proofs.Lang.Tidy
import Transcript.Proofs.Lang.Twin
import Transcript.Proofs.Lang.TwinCall
import Transcript.Proofs.Lang.TwinData
import Transcript.Proofs.Lang.TwinEval
import Transcript.Proofs.Lang.TwinForm
import Transcript.Proofs.Lang.TwinLogic
import Transcript.Proofs.Lang.TwinLoop
import Transcript.Proofs.Lang.TwinTask
import Transcript.Proofs.Lang.Watched
import Transcript.Proofs.Lang.Written
import Transcript.Proofs.Ledger
import Transcript.Proofs.Markdown.Chunk
import Transcript.Proofs.Markdown.Draft
import Transcript.Proofs.Markdown.Inert
import Transcript.Proofs.Markdown.Place
import Transcript.Proofs.Rst.Block
import Transcript.Proofs.Rst.Draft
import Transcript.Proofs.Rst.Ending
import Transcript.Proofs.Rst.Index
import Transcript.Proofs.Rst.LineOrder
import Transcript.Proofs.Rst.Opening
import Transcript.Proofs.Session.Block
import Transcript.Proofs.Session.Cut
import Transcript.Proofs.Session.Excerpt
import Transcript.Proofs.Session.Extent
import Transcript.Proofs.Session.Indent
import Transcript.Proofs.Session.Margin
import Transcript.Proofs.Session.Message
import Transcript.Proofs.Session.Position
import Transcript.Proofs.Session.Prompt
import Transcript.Proofs.Session.Typed
import Transcript.Proofs.Summary
import Transcript.Proofs.Test.Counts
import Transcript.Proofs.Test.Gate
import Transcript.Proofs.Test.Handling
import Transcript.Proofs.Test.Independence
import Transcript.Proofs.Test.NameOrder
import Transcript.Proofs.Test.Opening
import Transcript.Proofs.Test.Placement
import Transcript.Proofs.Test.Position
import Transcript.Proofs.Test.Presentation
import Transcript.Proofs.Test.Recorded
import Transcript.Proofs.Test.Region
import Transcript.Proofs.Test.Reporting
import Transcript.Proofs.Test.Skipping
import Transcript.Proofs.Test.Suspension
import Transcript.Proofs.Test.Trial
import Transcript.Proofs.Test.Twin
import Transcript.Proofs.Text.Field
import Transcript.Proofs.Text.Line
import Transcript.Proofs.Text.Search
import Transcript.Rst.Reader
import Transcript.Session.Example
import Transcript.Session.Grammar
import Transcript.Tally
import Transcript.Test.Attempt
import Transcript.Test.Region
import Transcript.Test.Runner
import Transcript.Text.Blank
import Transcript.Text.Bytes
import Transcript.Text.Character
import Transcript.Text.Lines
import Transcript.Text.Search
import Transcript.Text.Table.LetterCase
import Transcript.Text.Table.Punctuation
import Transcript.Text.Table.Shown
import Transcript.Text.Table.Word
import Transcript.Version
