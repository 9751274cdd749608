import Marginalia.CommandLine.Batch
import Marginalia.CommandLine.Listing
import Marginalia.CommandLine.Program
import Marginalia.CommandLine.Report
import Marginalia.CommandLine.Request
import Marginalia.Decimal.Basic
import Marginalia.Decimal.Binary64
import Marginalia.Document.Basic
import Marginalia.Document.Delta
import Marginalia.Document.Edit
import Marginalia.FileTree.Basic
import Marginalia.FileTree.Fault
import Marginalia.FileTree.Place
import Marginalia.Json.Reader
import Marginalia.Json.Writer
import Marginalia.Main
import Marginalia.Margin.Basic
import Marginalia.Margin.Coord
import Marginalia.Margin.Exact
import Marginalia.Margin.Heights
import Marginalia.Margin.Layout
import Marginalia.Markup.Basic
import Marginalia.Markup.Kind
import Marginalia.Markup.Metadata
import Marginalia.Markup.Scan
import Marginalia.Proofs.CommandLine.Listing
import Marginalia.Proofs.Document.Batch
import Marginalia.Proofs.Document.Checked
import Marginalia.Proofs.Document.Clamping
import Marginalia.Proofs.Document.Exchange
import Marginalia.Proofs.Document.History
import Marginalia.Proofs.Document.Insertion
import Marginalia.Proofs.Document.Patch
import Marginalia.Proofs.Document.Reply
import Marginalia.Proofs.Document.Resolution
import Marginalia.Proofs.Document.Splice
import Marginalia.Proofs.Document.Suggestion
import Marginalia.Proofs.Json.RoundTrip
import Marginalia.Proofs.Margin.Counts
import Marginalia.Proofs.Margin.Freshness
import Marginalia.Proofs.Margin.Geometry
import Marginalia.Proofs.Margin.Hysteresis
import Marginalia.Proofs.Margin.Numbers
import Marginalia.Proofs.Margin.Padding
import Marginalia.Proofs.Margin.Placement
import Marginalia.Proofs.Margin.Rows
import Marginalia.Proofs.Markup.Bytewise
import Marginalia.Proofs.Markup.Grammar
import Marginalia.Proofs.Markup.Memory
import Marginalia.Proofs.Markup.Restart
import Marginalia.Proofs.Markup.Search
import Marginalia.Proofs.Markup.Stability
import Marginalia.Proofs.Markup.Tiling
import Marginalia.Proofs.Markup.Token
import Marginalia.Proofs.Review.CommentToken
import Marginalia.Proofs.Review.Neutral
import Marginalia.Proofs.Review.ReadBack
import Marginalia.Proofs.Review.Residue
import Marginalia.Proofs.Review.Soundness
import Marginalia.Proofs.Review.Spacing
import Marginalia.Proofs.Text.Boundary
import Marginalia.Proofs.Text.Bytes
import Marginalia.Proofs.Text.Clamping
import Marginalia.Proofs.Text.Lines
import Marginalia.Proofs.Text.Occurrence
import Marginalia.Proofs.Thread.Adjacency
import Marginalia.Proofs.Thread.Grouping
import Marginalia.Proofs.Thread.Partition
import Marginalia.Proofs.Viewer.CardPicture
import Marginalia.Proofs.Viewer.CursorLine
import Marginalia.Proofs.Viewer.DocumentPane
import Marginalia.Proofs.Viewer.Freshness
import Marginalia.Proofs.Viewer.Highlight
import Marginalia.Proofs.Viewer.History
import Marginalia.Proofs.Viewer.LineMapper
import Marginalia.Proofs.Viewer.MarginPane
import Marginalia.Proofs.Viewer.Panes
import Marginalia.Proofs.Viewer.Redraw
import Marginalia.Proofs.Viewer.Typesetting
import Marginalia.Review.Digest
import Marginalia.Review.Draft
import Marginalia.Review.Resolution
import Marginalia.Review.Soundness
import Marginalia.Settings.Basic
import Marginalia.Settings.Expansion
import Marginalia.Settings.Store
import Marginalia.Text.Alphanumeric
import Marginalia.Text.Basic
import Marginalia.Text.Column
import Marginalia.Text.Cursor
import Marginalia.Text.Numeral
import Marginalia.Text.Search
import Marginalia.Text.Span
import Marginalia.Text.Utf8
import Marginalia.Thread
import Marginalia.Toml.Reader
import Marginalia.Toml.Scalar
import Marginalia.Toml.Value
import Marginalia.Toml.Writer
import Marginalia.Viewer.Basic
import Marginalia.Viewer.CardText
import Marginalia.Viewer.Drawing
import Marginalia.Viewer.Highlight
import Marginalia.Viewer.Screen
import Marginalia.Viewer.Style
import Marginalia.Viewer.Typography
