import Warboard.Board.Basic

namespace Warboard.Board

variable (b : Board)

def updateTerritory (i : TerritoryId) (f : Territory → Territory) : Board :=
  { b with territories := b.territories.modify i f }

/-- A player without a record gets one. -/
def updateOwner (player : String) (f : Owner → Owner) : Board :=
  { b with owners := b.owners.alter player fun o => some (f (o.getD (.new player))) }

/-- The territory becomes the player's, as the one taken last. None for an unknown territory. -/
def setOwner (territory player : String) : Option Board :=
  (b.locate territory).map fun i =>
    (b.updateTerritory i fun t => { t with owner := player }).updateOwner player
      fun o => { o with latest := some i }

def addUnits (i : TerritoryId) (key : UnitKey) (n : UInt32) : Checked Board :=
  match b.territories[i]? with
  | some t => do
    let units ← Stack.addTo key n t.units
    return b.updateTerritory i fun t => { t with units := units }
  | none => .ok b

/-- None if the territory has no such stack. -/
def removeUnits (i : TerritoryId) (key : UnitKey) (n : UInt32) : Option Board := do
  let units ← Stack.removeFrom key n (← b.territories[i]?).units
  return b.updateTerritory i fun t => { t with units := units }

/-- None if the territory has no such stack. -/
def mark (i : TerritoryId) (key : UnitKey) (f : Marks → Marks) : Option Board := do
  let units ← Stack.markIn key f (← b.territories[i]?).units
  return b.updateTerritory i fun t => { t with units := units }

def setProperty (i : TerritoryId) (key : UnitKey) (property value : String) : Option Board :=
  b.mark i key fun m => m.set property value

def startBattle (i : TerritoryId) : Board := b.updateTerritory i fun t => { t with battle := true }

def addUnplaced (player unit : String) (n : UInt32) : Checked Board := do
  let total ← addQuantity ((b.unplacedOf player).getD unit 0) n
  return b.updateOwner player fun o => { o with unplaced := o.unplaced.insert unit total }

/-- An entry without units left is dropped. -/
def removeUnplaced (player unit : String) (n : UInt32) : Board :=
  b.updateOwner player fun o => { o with
    unplaced := o.unplaced.alter unit fun q => q.bind fun q => if q ≤ n then none else some (q - n) }

/-- A player without a record does not get one. -/
def clearUnplaced (player : String) : Board :=
  { b with owners := b.owners.modify player fun o => { o with unplaced := ∅ } }

def adjustBalance (player : String) (delta : Int64) : Checked Board := do
  let balance ← addAmount (b.balanceOf player) delta
  return b.updateOwner player fun o => { o with balance := balance }

/-- The two territories, if both are known. -/
def ends (origin target : String) : Option (TerritoryId × TerritoryId) := do
  return (← b.locate origin, ← b.locate target)

/-- Changes the neighbours at both ends of a connection alike. -/
def relink (f : Std.ExtTreeSet TerritoryId → TerritoryId → Std.ExtTreeSet TerritoryId)
    (i j : TerritoryId) : Board :=
  let b := b.updateTerritory i fun t => { t with neighbors := f t.neighbors j }
  b.updateTerritory j fun t => { t with neighbors := f t.neighbors i }

/-- None if a territory is unknown or both are the same. -/
def connect (origin target : String) : Option Board := do
  let (i, j) ← b.ends origin target
  if i = j then none else return b.relink .insert i j

/-- None if a territory is unknown. -/
def disconnect (origin target : String) : Option Board := do
  let (i, j) ← b.ends origin target
  return b.relink .erase i j

/-- Does the map lead from the first territory straight to the second? -/
def adjacent (origin target : String) : Bool :=
  match b.ends origin target with
  | some (i, j) => (b.neighborsOf i).contains j
  | none => false

end Warboard.Board
