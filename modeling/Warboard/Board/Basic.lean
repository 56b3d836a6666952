import Warboard.Change.Event
import Warboard.Map.Record
import Warboard.Overflow
import Warboard.Text.Real
import Std.Data.ExtTreeSet

namespace Warboard

/-- What the engine has said about the units of a stack. -/
structure Marks where
  wasInCombat : Bool
  alreadyMoved : Float
  /-- Properties without a meaning here, as they were given. -/
  other : Table String
  deriving DecidableEq

namespace Marks

def fresh : Marks := ⟨false, 0, ∅⟩

/-- A movement that is no number counts as zero and is kept as it was given. -/
def set (m : Marks) (property value : String) : Marks :=
  if property = "wasInCombat" then
    { m with wasInCombat := value.toList.map Char.toLower = "true".toList }
  else if property = "alreadyMoved" then
    match Text.readReal value.toList with
    | some moved => { m with alreadyMoved := moved }
    | none => { m with alreadyMoved := 0, other := m.other.insert property value }
  else { m with other := m.other.insert property value }

/-- Sets the properties in name order. -/
def setAll (m : Marks) (properties : Table String) : Marks := properties.foldl set m

end Marks

/-- Units of one type and owner in one territory. -/
structure Stack where
  key : UnitKey
  quantity : UInt32
  marks : Marks
  deriving DecidableEq

namespace Stack

variable (key : UnitKey)

def find? (units : List Stack) : Option Stack := units.find? fun s => s.key = key

/-- A stack that is not there yet is put at the end. -/
def addTo (n : UInt32) : List Stack → Checked (List Stack)
  | [] => .ok [⟨key, n, .fresh⟩]
  | s :: rest =>
    if s.key = key then do return { s with quantity := ← addQuantity s.quantity n } :: rest
    else do return s :: (← addTo n rest)

/-- A stack without units left is dropped. None if there is no such stack. -/
def removeFrom (n : UInt32) : List Stack → Option (List Stack)
  | [] => none
  | s :: rest =>
    if s.key = key then
      some (if s.quantity ≤ n then rest else { s with quantity := s.quantity - n } :: rest)
    else (removeFrom n rest).map (s :: ·)

/-- Changes the marks of the stack; none if there is no such stack. -/
def markIn (f : Marks → Marks) : List Stack → Option (List Stack)
  | [] => none
  | s :: rest =>
    if s.key = key then some ({ s with marks := f s.marks } :: rest)
    else (markIn f rest).map (s :: ·)

end Stack

/-- Territories are numbered in the order of the map. -/
abbrev TerritoryId := Nat

structure Territory where
  name : String
  owner : String
  units : List Stack
  /-- Has a battle begun here? -/
  battle : Bool
  victoryCity : Bool
  neighbors : Std.ExtTreeSet TerritoryId
  deriving DecidableEq

structure Owner where
  name : String
  balance : Int64
  /-- Units that are bought and not yet placed. -/
  unplaced : Table UInt32
  /-- The territory taken last. -/
  latest : Option TerritoryId
  deriving DecidableEq

def Owner.new (name : String) : Owner := ⟨name, 0, ∅, none⟩

/-- All that the engine's changes can change and a new game restores. -/
structure Board where
  territories : List Territory
  owners : Table Owner
  deriving DecidableEq

namespace Board

/-- The last of the territories with the name. -/
def locateIn (name : String) : List Territory → Option TerritoryId
  | [] => none
  | t :: rest => match locateIn name rest with
    | some i => some (i + 1)
    | none => if t.name = name then some 0 else none

variable (b : Board)

def locate (name : String) : Option TerritoryId := locateIn name b.territories

/-- The name of a territory, and nothing for a number without one. -/
def nameOf (i : TerritoryId) : String := (b.territories[i]?.map Territory.name).getD ""

def ownerOf (i : TerritoryId) : String := (b.territories[i]?.map Territory.owner).getD ""

def neighborsOf (i : TerritoryId) : List TerritoryId :=
  (b.territories[i]?.map fun t => t.neighbors.toList).getD []

/-- Zero for a player without a record. -/
def balanceOf (player : String) : Int64 := (b.owners[player]?.map Owner.balance).getD 0

def unplacedOf (player : String) : Table UInt32 := (b.owners[player]?.map Owner.unplaced).getD ∅

end Board

end Warboard
