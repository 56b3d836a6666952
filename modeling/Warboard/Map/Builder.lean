import Warboard.Map.Record
import Warboard.Text.LetterCase

namespace Warboard.MapRecord

/-- The unit type that lets its owner buy and place units in its territory. -/
def factory : String := "factory"

variable (r : MapRecord)

def addTerritory (name owner : String) : MapRecord :=
  { r with
    territories := r.territories ++ [name]
    startingOwnership :=
      if owner = neutral then r.startingOwnership else r.startingOwnership.insert name owner }

def connect (origin target : String) : MapRecord :=
  { r with connections := r.connections ++ [⟨origin, target⟩] }

def addPlayer (name : String) (balance : Int64) : MapRecord :=
  { r with
    players := r.players ++ [name]
    initialResources := r.initialResources.insert name balance }

def addUnit (name : String) (attack defense : Int32) (movement : UInt32) : MapRecord :=
  { r with
    units := r.units ++ [name]
    unitStats := r.unitStats.insert name ⟨some attack, some defense, some movement⟩ }

/-- The name of the rule that yields a unit type: `buy` and the type with a capital letter. -/
def ruleName (unit : String) : String := "buy" ++ String.ofList (Text.capitalize unit.toList)

def addCost (unit : String) (cost : Int64) : MapRecord :=
  { r with productionRules := r.productionRules.insert (ruleName unit) ⟨unit, cost⟩ }

def placeUnits (territory unit owner : String) (quantity : UInt32) : MapRecord :=
  { r with startingUnits := r.startingUnits ++ [⟨unit, territory, quantity, owner⟩] }

def placeFactory (territory owner : String) : MapRecord := r.placeUnits territory factory owner 1

def addVictoryCity (territory : String) : MapRecord :=
  { r with victoryCities := r.victoryCities ++ [territory] }

end Warboard.MapRecord
