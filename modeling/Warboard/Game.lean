import Warboard.Board.World
import Warboard.Change.Leaves

namespace Warboard

/-- Properties of units that no stack on the board could be found for. -/
abbrev Pending := Std.ExtTreeMap UnitKey (Table String)

/-- The game as the engine's changes tell it. -/
structure Game where
  world : World
  pending : Pending
  deriving DecidableEq

namespace Game

open Change

def ofWorld (w : World) : Game := ⟨w, ∅⟩

variable (g : Game)

def withBoard (b : Board) : Game := { g with world := { g.world with board := b } }

/-- One unit comes to the territory, and takes the properties that wait for units of its key. -/
def addUnit (i : TerritoryId) (key : UnitKey) : Checked Game := do
  let b ← g.world.board.addUnits i key 1
  match g.pending[key]? with
  | some properties =>
    let b := (b.mark i key fun marks => marks.setAll properties).getD b
    return { g.withBoard b with pending := g.pending.erase key }
  | none => return g.withBoard b

/-- Units come to a territory or to the pool of a player with a record. -/
def addUnits (target : String) (units : List UnitKey) : Checked Game :=
  match g.world.board.locate target with
  | some i => units.foldlM (fun g key => g.addUnit i key) g
  | none =>
    if g.world.board.owners.contains target then do
      return g.withBoard (← units.foldlM (fun b key => b.addUnplaced target key.unit 1) g.world.board)
    else .ok g

def removeUnits (target : String) (units : List UnitKey) : Game :=
  match g.world.board.locate target with
  | some i =>
    g.withBoard (units.foldl (fun b key => (b.removeUnits i key 1).getD b) g.world.board)
  | none =>
    if g.world.board.owners.contains target then
      g.withBoard (units.foldl (fun b key => b.removeUnplaced target key.unit 1) g.world.board)
    else g

def defer (key : UnitKey) (property value : String) : Game :=
  { g with pending := g.pending.alter key fun p => some ((p.getD ∅).insert property value) }

/-- The property goes to the stack in the territory that the owner took last, and waits if there is
none. -/
def setProperty (key : UnitKey) (property value : String) : Game :=
  let b := g.world.board
  match b.owners[key.owner]? >>= Owner.latest >>= fun i => b.setProperty i key property value with
  | some b => g.withBoard b
  | none => g.defer key property value

def markBattles (records : List Battle) : Game :=
  g.withBoard (records.foldl (fun b r => ((b.locate r.territory).map b.startBattle).getD b)
    g.world.board)

def applyEvent : Event → Checked Game
  | .role player => .ok { g with world := { g.world with controlled := some player } }
  | .battles records => .ok (g.markBattles records)
  | .ownership player territory _ =>
    .ok (((g.world.board.setOwner territory player).map g.withBoard).getD g)
  | .addUnits target units => g.addUnits target units
  | .removeUnits target units => .ok (g.removeUnits target units)
  | .resource player quantity => do
    return g.withBoard (← g.world.board.adjustBalance player quantity)
  | .property key property value _ => .ok (g.setProperty key property value)

/-- Applies a line of the engine. What has no known form or names nothing known changes nothing. -/
def apply (line : Text) : Checked Game := (leaves line).foldlM applyEvent g

def clearPending : Game := { g with pending := ∅ }

end Game

end Warboard
