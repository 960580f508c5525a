import Kerf.Files.Store
import Kerf.Main
import Kerf.Proofs.Drawing.Walk
import Kerf.Proofs.Path.Desugaring
import Kerf.Proofs.Program.Machine
import Kerf.Proofs.Program.Passes
import Kerf.Proofs.Decimal.Notation
import Kerf.Proofs.Program.Labels
import Kerf.Proofs.Program.Numbers
import Kerf.Proofs.Program.Validity
import Kerf.Proofs.Setup
import Kerf.Proofs.Conversion
import Kerf.Proofs.Program.Search
import Kerf.Proofs.Program.Itinerary
import Kerf.Proofs.Program.Comments
import Kerf.Proofs.Drawing.Faults
import Kerf.Proofs.Path.Writing
import Kerf.Proofs.Program.Joins
import Kerf.Proofs.Curve.Arc
import Kerf.Proofs.Path.Following
import Kerf.Proofs.Configuration.Storage
import Kerf.Proofs.CommandLine.Effects
import Kerf.Proofs.Decimal.Encoding
import Kerf.Proofs.Decimal.Faithful
import Kerf.Proofs.Toml.Number
import Kerf.Proofs.Toml.Document
import Kerf.Proofs.Json.Number
import Kerf.Proofs.Json.Reading
import Kerf.Proofs.Configuration.RoundTrip
import Kerf.Proofs.Curve.Extent
import Kerf.Proofs.Decimal.Places
import Kerf.Proofs.Program.Rounding
import Kerf.Proofs.Transform.Writing
import Kerf.Proofs.Path.Faults
import Kerf.Proofs.Curve.Reversal
import Kerf.Proofs.Transform.Drawing
import Kerf.Proofs.Decimal.Order
import Kerf.Proofs.Shape.Star
import Kerf.Proofs.Paint
import Kerf.Proofs.Shape.PointList
import Kerf.Proofs.Color.Functional
import Kerf.Proofs.Color.Hexadecimal
import Kerf.Proofs.Color.Reading
import Kerf.Proofs.Program.LineComments
import Kerf.Proofs.Drawing.Loading
import Kerf.Proofs.Drawing.PointCounts
import Kerf.Proofs.Unrounded
import Kerf.Proofs.Piece
import Kerf.Proofs.Program.Rejection
import Kerf.Proofs.Text.Lines
import Kerf.Proofs.Program.Travel
import Kerf.Proofs.Program.Sources
import Kerf.Proofs.Transform.Similarity
import Kerf.Proofs.Path.Spans
import Kerf.Proofs.Program.Motions
