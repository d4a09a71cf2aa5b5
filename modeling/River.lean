import River.Exchange
import River.Json.Doc
import River.Node.Anchor
import River.Node.Order
import River.Node.Place
import River.Node.Unplaced
import River.Node.Visit
import River.Node.Walk
import River.Outline
import River.Outline.Sketch
import River.Session
import River.Source
import River.Proofs.Pos
import River.Proofs.Json.Grammar
import River.Proofs.Json.Spelling
import River.Proofs.Json.Scanning
import River.Proofs.Json.Skipping
import River.Proofs.Json.Scanned
import River.Proofs.Json.Skipped
import River.Proofs.Json.Lexemes
import River.Proofs.Json.Within
import River.Proofs.Json.Framed
import River.Proofs.Exchange.Encoding
import River.Proofs.Exchange.Denoting
import River.Proofs.Exchange.Spelled
import River.Proofs.Exchange.Yields
import River.Proofs.Exchange.RoundTrip
import River.Proofs.Exchange.Layout
import River.Proofs.Exchange.Accepted
import River.Proofs.Exchange.Unambiguous
import River.Proofs.Exchange.Refused
import River.Proofs.Exchange.Pointed
import River.Proofs.Exchange.Respelled
import River.Proofs.Exchange.Rejected
import River.Proofs.Exchange.Whole
import River.Proofs.Exchange.Paths
import River.Proofs.Exchange.Frames
import River.Proofs.Exchange.Offsets
import River.Proofs.Node.Preorder
import River.Proofs.Node.Postorder
import River.Proofs.Node.Places
import River.Proofs.Node.Orders
import River.Proofs.Node.Calls
import River.Proofs.Node.Found
import River.Proofs.Node.Anchors
import River.Proofs.Node.Spans
import River.Proofs.Node.Nesting
import River.Proofs.Node.Innermost
import River.Proofs.Node.Sequence
import River.Proofs.Node.Visits
import River.Proofs.Source.Located
import River.Proofs.Source.Table
import River.Proofs.Source.Columns
import River.Proofs.Source.Observed
import River.Proofs.Source.Shown
import River.Proofs.Text.Lines
import River.Proofs.Text.Quoted
import River.Proofs.Outline.Printing
import River.Proofs.Outline.Lines
import River.Proofs.Outline.Reading
import River.Proofs.Outline.Walked
import River.Proofs.Outline.Hidden
import River.Proofs.Outline.Painted
import River.Proofs.Session.Traced
