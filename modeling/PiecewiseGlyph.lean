import PiecewiseGlyph.CommandLine.Arguments
import PiecewiseGlyph.CommandLine.Reading
import PiecewiseGlyph.CommandLine.Usage
import PiecewiseGlyph.Decimal.Layout
import PiecewiseGlyph.Decimal.Numeral
import PiecewiseGlyph.Decimal.Shortest
import PiecewiseGlyph.Files.Access
import PiecewiseGlyph.Files.Route
import PiecewiseGlyph.Files.Tree
import PiecewiseGlyph.Font
import PiecewiseGlyph.Formula.Piecewise
import PiecewiseGlyph.Formula.Style
import PiecewiseGlyph.Glyph
import PiecewiseGlyph.Json.Document
import PiecewiseGlyph.Json.Number
import PiecewiseGlyph.Json.Quoted
import PiecewiseGlyph.Json.Reader
import PiecewiseGlyph.Json.Record
import PiecewiseGlyph.Json.Skip
import PiecewiseGlyph.Json.Value
import PiecewiseGlyph.Main
import PiecewiseGlyph.Markup.Attribute
import PiecewiseGlyph.Markup.Item
import PiecewiseGlyph.Markup.Reference
import PiecewiseGlyph.Outline.Basic
import PiecewiseGlyph.Outline.Segment
import PiecewiseGlyph.Outline.Stroke
import PiecewiseGlyph.Path.Command
import PiecewiseGlyph.Path.Token
import PiecewiseGlyph.Program.Notice
import PiecewiseGlyph.Program.Preparation
import PiecewiseGlyph.Program.Run
import PiecewiseGlyph.Program.Setup
import PiecewiseGlyph.Proofs.Choosing
import PiecewiseGlyph.Proofs.Closing
import PiecewiseGlyph.Proofs.Contours
import PiecewiseGlyph.Proofs.Coordinates
import PiecewiseGlyph.Proofs.Course
import PiecewiseGlyph.Proofs.Decimal.Binary64
import PiecewiseGlyph.Proofs.Decimal.Plain
import PiecewiseGlyph.Proofs.Decimal.Rounding
import PiecewiseGlyph.Proofs.Decimal.Shortest
import PiecewiseGlyph.Proofs.Delivery
import PiecewiseGlyph.Proofs.Drawing
import PiecewiseGlyph.Proofs.Faults
import PiecewiseGlyph.Proofs.Files
import PiecewiseGlyph.Proofs.Fonts
import PiecewiseGlyph.Proofs.Formula.Decoding
import PiecewiseGlyph.Proofs.Formula.Meaning
import PiecewiseGlyph.Proofs.Formula.Nesting
import PiecewiseGlyph.Proofs.Formula.Numbers
import PiecewiseGlyph.Proofs.Formula.ReadBack
import PiecewiseGlyph.Proofs.Formula.Reading
import PiecewiseGlyph.Proofs.Formula.Thresholds
import PiecewiseGlyph.Proofs.Grammar
import PiecewiseGlyph.Proofs.Joining
import PiecewiseGlyph.Proofs.Json.Reading
import PiecewiseGlyph.Proofs.Json.Records
import PiecewiseGlyph.Proofs.Lines
import PiecewiseGlyph.Proofs.Longhand
import PiecewiseGlyph.Proofs.Markup.Documents
import PiecewiseGlyph.Proofs.Markup.Glyphs
import PiecewiseGlyph.Proofs.Markup.Items
import PiecewiseGlyph.Proofs.Markup.Nesting
import PiecewiseGlyph.Proofs.Markup.References
import PiecewiseGlyph.Proofs.Markup.Tags
import PiecewiseGlyph.Proofs.Markup.Writing
import PiecewiseGlyph.Proofs.NewSettings
import PiecewiseGlyph.Proofs.Plane
import PiecewiseGlyph.Proofs.Positions
import PiecewiseGlyph.Proofs.Range
import PiecewiseGlyph.Proofs.Reports
import PiecewiseGlyph.Proofs.Rescaling
import PiecewiseGlyph.Proofs.Resolving
import PiecewiseGlyph.Proofs.Scanning
import PiecewiseGlyph.Proofs.Settings
import PiecewiseGlyph.Proofs.Shares
import PiecewiseGlyph.Proofs.Shorthand
import PiecewiseGlyph.Proofs.Strokes
import PiecewiseGlyph.Proofs.Tracing
import PiecewiseGlyph.Proofs.Trees
import PiecewiseGlyph.Result
import PiecewiseGlyph.Scalar
import PiecewiseGlyph.Settings
import PiecewiseGlyph.Text.Search
import PiecewiseGlyph.Text.Split
import PiecewiseGlyph.Text.Utf8
