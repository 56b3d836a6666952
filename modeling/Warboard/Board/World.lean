import Warboard.Board.Update
import Warboard.Map.Catalog

namespace Warboard

namespace Board

/-- Units in unknown territories are passed over. -/
def placeStart (b : Board) (u : StartingUnit) : Checked Board :=
  match b.locate u.territory with
  | some i => b.addUnits i ⟨u.unit, u.owner⟩ u.quantity
  | none => .ok b

def bare (r : MapRecord) : List Territory :=
  r.territories.map fun name => ⟨name, r.startingOwnership.getD name neutral, [], false, false, ∅⟩

def startingOwners (r : MapRecord) : Table Owner :=
  r.initialResources.foldl
    (fun owners name balance => owners.insert name { Owner.new name with balance := balance })
    (.ofList (r.players.map fun name => (name, Owner.new name)))

def addVictoryCity (b : Board) (territory : String) : Board :=
  match b.locate territory with
  | some i => b.updateTerritory i fun t => { t with victoryCity := true }
  | none => b

/-- The board at the start of a game. Unknown names are passed over. -/
def ofRecord (r : MapRecord) : Checked Board := do
  let b ← r.startingUnits.foldlM placeStart ⟨bare r, startingOwners r⟩
  let b := r.connections.foldl (fun b c => (b.connect c.origin c.target).getD b) b
  return r.victoryCities.foldl addVictoryCity b

end Board

/-- The state of a game, and what does not change in it. -/
structure World where
  catalog : Catalog
  board : Board
  /-- The board at the start of a game. -/
  start : Board
  /-- The player that the agent moves for. -/
  controlled : Option String
  turn : UInt32
  deriving DecidableEq

namespace World

def ofRecord (r : MapRecord) : Checked World := do
  let board ← Board.ofRecord r
  return ⟨.ofRecord r, board, board, none, 1⟩

/-- Back to the start of a game, for the same player. -/
def reset (w : World) : World := { w with board := w.start, turn := 1 }

end World

end Warboard
