import FeatureMarkdown.Batch.Error
import FeatureMarkdown.Batch.Event
import FeatureMarkdown.Batch.Options
import FeatureMarkdown.Batch.Run
import FeatureMarkdown.Command.Arguments
import FeatureMarkdown.Command.Option
import FeatureMarkdown.Command.Reading
import FeatureMarkdown.Command.Run
import FeatureMarkdown.Command.Usage
import FeatureMarkdown.Config
import FeatureMarkdown.Document
import FeatureMarkdown.Document.Json
import FeatureMarkdown.File.Change
import FeatureMarkdown.File.Discovery
import FeatureMarkdown.File.Error
import FeatureMarkdown.File.Location
import FeatureMarkdown.File.Lookup
import FeatureMarkdown.File.Path
import FeatureMarkdown.File.System
import FeatureMarkdown.Gherkin.Blank
import FeatureMarkdown.Gherkin.Grammar.Block
import FeatureMarkdown.Gherkin.Grammar.Feature
import FeatureMarkdown.Gherkin.Grammar.Line
import FeatureMarkdown.Gherkin.Grammar.Step
import FeatureMarkdown.Gherkin.Grammar.Table
import FeatureMarkdown.Gherkin.Grammar.Tag
import FeatureMarkdown.Gherkin.Language
import FeatureMarkdown.Gherkin.Outline
import FeatureMarkdown.Gherkin.Parse
import FeatureMarkdown.Gherkin.Parser
import FeatureMarkdown.Gherkin.SyntaxError
import FeatureMarkdown.Json
import FeatureMarkdown.Main
import FeatureMarkdown.Markdown.Feature
import FeatureMarkdown.Markdown.LineEnding
import FeatureMarkdown.Markdown.Lines
import FeatureMarkdown.Markdown.Options
import FeatureMarkdown.Markdown.Placeholder
import FeatureMarkdown.Markdown.Render
import FeatureMarkdown.Markdown.Step
import FeatureMarkdown.Markdown.Table
import FeatureMarkdown.Sort
import FeatureMarkdown.Text.Basic
import FeatureMarkdown.Text.Blank
import FeatureMarkdown.Text.Bytes
import FeatureMarkdown.Text.Lines
import FeatureMarkdown.Text.Terminal
import FeatureMarkdown.Proofs.Document.Tables
import FeatureMarkdown.Proofs.Markdown.Faults
import FeatureMarkdown.Proofs.Gherkin.EvenTables
import FeatureMarkdown.Proofs.Markdown.Assembly
import FeatureMarkdown.Proofs.Batch.Conversion
import FeatureMarkdown.Proofs.File.Entries
import FeatureMarkdown.Proofs.File.Names
import FeatureMarkdown.Proofs.File.Walk
import FeatureMarkdown.Proofs.File.Frames
import FeatureMarkdown.Proofs.Batch.Loop
import FeatureMarkdown.Proofs.File.Order
import FeatureMarkdown.Proofs.Markdown.Endings
import FeatureMarkdown.Proofs.Markdown.Columns
import FeatureMarkdown.Proofs.Markdown.TableText
import FeatureMarkdown.Proofs.Json.Grammar
import FeatureMarkdown.Proofs.Json.Reader
import FeatureMarkdown.Proofs.Document.Decoding
import FeatureMarkdown.Proofs.File.Ways
import FeatureMarkdown.Proofs.File.Kept
import FeatureMarkdown.Proofs.Batch.DryRun
import FeatureMarkdown.Proofs.Batch.MissingSource
import FeatureMarkdown.Proofs.Text.Utf8Order
import FeatureMarkdown.Proofs.File.Search
import FeatureMarkdown.Proofs.Document.InlineTexts
import FeatureMarkdown.Proofs.Gherkin.SingleLines
import FeatureMarkdown.Proofs.Markdown.Parts
import FeatureMarkdown.Proofs.Markdown.SingleLines
import FeatureMarkdown.Proofs.Markdown.OtherEnding
import FeatureMarkdown.Proofs.Markdown.Landmarks
import FeatureMarkdown.Proofs.File.Destination
import FeatureMarkdown.Proofs.File.Writing
import FeatureMarkdown.Proofs.Batch.FirstFault
import FeatureMarkdown.Proofs.Batch.Footprint
import FeatureMarkdown.Proofs.Batch.Repetition
import FeatureMarkdown.Proofs.Gherkin.Blanks
import FeatureMarkdown.Proofs.Gherkin.Advances
import FeatureMarkdown.Proofs.Gherkin.LineOrder
import FeatureMarkdown.Proofs.Gherkin.Reads
import FeatureMarkdown.Proofs.Gherkin.Layout
import FeatureMarkdown.Proofs.Gherkin.PlainLines
import FeatureMarkdown.Proofs.Gherkin.PlainParts
import FeatureMarkdown.Proofs.Gherkin.RoundTrip
import FeatureMarkdown.Proofs.Gherkin.Breaks
import FeatureMarkdown.Proofs.Gherkin.CarriageReturns
import FeatureMarkdown.Proofs.Command.Mentions
import FeatureMarkdown.Proofs.Command.Verdicts
import FeatureMarkdown.Proofs.Command.ExitCode
import FeatureMarkdown.Proofs.Command.Spelling
import FeatureMarkdown.Proofs.Markdown.Placeholders
import FeatureMarkdown.Proofs.Gherkin.Merging
import FeatureMarkdown.Proofs.Markdown.Measuring
import FeatureMarkdown.Proofs.Markdown.Grid
import FeatureMarkdown.Proofs.Markdown.Substitution
import FeatureMarkdown.Proofs.Text.Trimming
import FeatureMarkdown.Proofs.Markdown.Descriptions
import FeatureMarkdown.Proofs.Batch.Overwriting
import FeatureMarkdown.Proofs.Batch.Targets
