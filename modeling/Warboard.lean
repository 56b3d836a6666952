import Warboard.Config
import Warboard.Dictionary
import Warboard.Game
import Warboard.Json.Fields
import Warboard.Json.Parser
import Warboard.Json.Printer
import Warboard.Main
import Warboard.Map.Catalog
import Warboard.Map.Format
import Warboard.Map.Sample
import Warboard.Moves.Picker
import Warboard.Moves.Purchase
import Warboard.Options
import Warboard.Proofs.Board.Amend
import Warboard.Proofs.Board.Effect
import Warboard.Proofs.Board.Enrolment
import Warboard.Proofs.Board.Footprint
import Warboard.Proofs.Board.Forget
import Warboard.Proofs.Board.Invariant
import Warboard.Proofs.Board.Marks
import Warboard.Proofs.Board.Operation
import Warboard.Proofs.Board.Positive
import Warboard.Proofs.Board.Reset
import Warboard.Proofs.Board.Sound
import Warboard.Proofs.Board.Stack
import Warboard.Proofs.Board.Start
import Warboard.Proofs.Board.Update
import Warboard.Proofs.Board.Withdrawal
import Warboard.Proofs.Change.Balance
import Warboard.Proofs.Change.Boundary
import Warboard.Proofs.Change.Clipping
import Warboard.Proofs.Change.Expansion
import Warboard.Proofs.Change.Forms
import Warboard.Proofs.Change.Labels
import Warboard.Proofs.Change.Nesting
import Warboard.Proofs.Change.Pieces
import Warboard.Proofs.Change.Precedence
import Warboard.Proofs.Change.Production
import Warboard.Proofs.Change.Reading
import Warboard.Proofs.Change.Report
import Warboard.Proofs.Change.Scanning
import Warboard.Proofs.Change.Tree
import Warboard.Proofs.Checked
import Warboard.Proofs.Config.Selection
import Warboard.Proofs.Dictionary.Capacity
import Warboard.Proofs.Dictionary.File
import Warboard.Proofs.Dictionary.Key
import Warboard.Proofs.Dictionary.Numbering
import Warboard.Proofs.Dictionary.Stability
import Warboard.Proofs.Features.Layout
import Warboard.Proofs.Features.Numbers
import Warboard.Proofs.Game.Capacity
import Warboard.Proofs.Game.Confinement
import Warboard.Proofs.Game.Enrolment
import Warboard.Proofs.Game.Footprint
import Warboard.Proofs.Game.Ground
import Warboard.Proofs.Game.History
import Warboard.Proofs.Game.Marks
import Warboard.Proofs.Game.Operation
import Warboard.Proofs.Game.Waiting
import Warboard.Proofs.Game.Withdrawal
import Warboard.Proofs.Game.Worklist
import Warboard.Proofs.Json.Escape
import Warboard.Proofs.Json.Numeral
import Warboard.Proofs.Json.Real
import Warboard.Proofs.Json.RoundTrip
import Warboard.Proofs.Json.Table
import Warboard.Proofs.Map.Construction
import Warboard.Proofs.Map.Format
import Warboard.Proofs.Map.Listing
import Warboard.Proofs.Map.Loading
import Warboard.Proofs.Moves.Basket
import Warboard.Proofs.Moves.Completions
import Warboard.Proofs.Moves.Echo
import Warboard.Proofs.Moves.Enumeration
import Warboard.Proofs.Moves.Listing
import Warboard.Proofs.Moves.Movement
import Warboard.Proofs.Moves.Orders
import Warboard.Proofs.Moves.Placement
import Warboard.Proofs.Moves.Price
import Warboard.Proofs.Moves.Purchase
import Warboard.Proofs.Moves.Search
import Warboard.Proofs.Reach.Graph
import Warboard.Proofs.Reach.Queue
import Warboard.Proofs.Reach.Range
import Warboard.Proofs.Reach.Route
import Warboard.Proofs.Reach.Walk
import Warboard.Proofs.Rounding.Mantissa
import Warboard.Proofs.Rounding.Packing
import Warboard.Proofs.Rounding.Sum
import Warboard.Proofs.Session.Bookkeeping
import Warboard.Proofs.Session.Books
import Warboard.Proofs.Session.Chunks
import Warboard.Proofs.Session.Decision
import Warboard.Proofs.Session.Frame
import Warboard.Proofs.Session.Keeping
import Warboard.Proofs.Session.Outcome
import Warboard.Proofs.Session.Prompting
import Warboard.Proofs.Session.Recognition
import Warboard.Proofs.Session.Resolving
import Warboard.Proofs.Session.Restart
import Warboard.Proofs.Session.Run
import Warboard.Proofs.Session.Serving
import Warboard.Proofs.Session.Setting
import Warboard.Proofs.Session.Succession
import Warboard.Proofs.Session.Trace
import Warboard.Proofs.Session.Undisturbed
import Warboard.Proofs.Table
import Warboard.Proofs.Text.Decimal
import Warboard.Proofs.Text.LetterCase
import Warboard.Proofs.Text.Octets
import Warboard.Proofs.Text.Scan
import Warboard.Proofs.Text.Token
import Warboard.Proofs.Training.Chronicle
import Warboard.Proofs.Training.Filing
import Warboard.Proofs.Training.Names
import Warboard.Proofs.Training.Row
import Warboard.Proofs.Wire.Response
import Warboard.Reach
import Warboard.Session.Connection
import Warboard.Session.Setup
import Warboard.Text.Octets
import Warboard.Text.Real
import Warboard.Training.Zip
import Warboard.Wire.Inbound
import Warboard.Wire.Response
import Warboard.Proofs.Moves.Tally
import Warboard.Proofs.Text.Words
import Warboard.Proofs.Wire.Message
import Warboard.Proofs.Board.VictoryCity
import Warboard.Proofs.Board.Tenure
import Warboard.Proofs.Features.Mirror
