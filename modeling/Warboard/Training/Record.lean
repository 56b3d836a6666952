import Warboard.Features
import Warboard.Text.Shortest

namespace Warboard

/-- Numbers that are not finite have no spelling. -/
def Json.ofFloat32 (x : Float32) : Json :=
  if x.isFinite then .number (Text.ofFloat32 x) else .null

def Features.toJson (f : Features) : Json :=
  let row (xs : List Float32) : Json := .array (xs.map Json.ofFloat32)
  .record [("node_features", .array (f.territories.map row)),
    ("adjacency", .array (f.adjacency.map row)), ("global_features", row f.phase)]

/-- One purchase decision, for training. -/
structure PurchaseRecord where
  round : String
  player : String
  delegate : Phase
  balanceBefore : Int64
  balanceAfter : Int64
  state : Features
  /-- The numbers of all purchases that were legal. -/
  legalMoves : List UInt32
  chosenMove : UInt32
  deriving DecidableEq

namespace PurchaseRecord

def toJson (r : PurchaseRecord) : Json :=
  .record [("round", .ofString r.round), ("player", .ofString r.player),
    ("delegate", r.delegate.toJson), ("pu_before_move", .ofInt r.balanceBefore.toInt),
    ("pu_after_move", .ofInt r.balanceAfter.toInt), ("state", r.state.toJson),
    ("legal_moves", .array (r.legalMoves.map fun n => .ofNat n.toNat)),
    ("chosen_move", .ofNat r.chosenMove.toNat)]

/-- The line of a dataset that holds the record. -/
def toLine (r : PurchaseRecord) : Text := r.toJson.render .compact

end PurchaseRecord

end Warboard
