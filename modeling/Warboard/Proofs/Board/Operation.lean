import Warboard.Board.World
import Warboard.Proofs.Checked

namespace Warboard

namespace Board

/-- The ways to change a board. Each is one primitive with its arguments. -/
inductive Operation
  | setOwner (territory player : String)
  | addUnits (i : TerritoryId) (key : UnitKey) (n : UInt32)
  | removeUnits (i : TerritoryId) (key : UnitKey) (n : UInt32)
  | setProperty (i : TerritoryId) (key : UnitKey) (property value : String)
  | startBattle (i : TerritoryId)
  | addUnplaced (player unit : String) (n : UInt32)
  | removeUnplaced (player unit : String) (n : UInt32)
  | clearUnplaced (player : String)
  | adjustBalance (player : String) (delta : Int64)
  | connect (origin target : String)
  | disconnect (origin target : String)

/-- A primitive that finds nothing to change leaves the board as it is. -/
def perform (b : Board) : Operation → Checked Board
  | .setOwner territory player => .ok ((b.setOwner territory player).getD b)
  | .addUnits i key n => b.addUnits i key n
  | .removeUnits i key n => .ok ((b.removeUnits i key n).getD b)
  | .setProperty i key property value => .ok ((b.setProperty i key property value).getD b)
  | .startBattle i => .ok (b.startBattle i)
  | .addUnplaced player unit n => b.addUnplaced player unit n
  | .removeUnplaced player unit n => .ok (b.removeUnplaced player unit n)
  | .clearUnplaced player => .ok (b.clearUnplaced player)
  | .adjustBalance player delta => b.adjustBalance player delta
  | .connect origin target => .ok ((b.connect origin target).getD b)
  | .disconnect origin target => .ok ((b.disconnect origin target).getD b)

theorem getD_keeps {P : Board → Prop} {b : Board} {c : Option Board} (h : P b)
    (hc : ∀ b' ∈ c, P b') : P (c.getD b) := by
  cases c with
  | none => exact h
  | some b' => exact hc b' rfl

end Board

namespace World

inductive Operation
  | onBoard (op : Board.Operation)
  | setControlled (player : String)
  | setTurn (turn : UInt32)
  | reset

def perform (w : World) : Operation → Checked World
  | .onBoard op => do return { w with board := ← w.board.perform op }
  | .setControlled player => .ok { w with controlled := some player }
  | .setTurn turn => .ok { w with turn := turn }
  | .reset => .ok w.reset

/-- The world of the map after the operations, the first of them first. -/
def after (r : MapRecord) (ops : List Operation) : Checked World := do
  ops.foldlM perform (← ofRecord r)

end World

end Warboard
