import Std.Data.ExtTreeMap

namespace Warboard

/-- A table with one entry for each name, in name order. -/
abbrev Table (α : Type) := Std.ExtTreeMap String α

structure Connection where
  origin : String
  target : String
  deriving DecidableEq, Repr

/-- The strengths of a unit type; absent ones take the values of an ordinary unit. -/
structure UnitStats where
  attack : Option Int32
  defense : Option Int32
  movement : Option UInt32
  deriving DecidableEq, Repr

/-- One purchase under the rule yields the unit at the cost. -/
structure ProductionRule where
  unit : String
  cost : Int64
  deriving DecidableEq, Repr

structure StartingUnit where
  unit : String
  territory : String
  quantity : UInt32
  owner : String
  deriving DecidableEq, Repr

/-- The owner of what belongs to no player. -/
def neutral : String := "Neutral"

/-- The fixed description of a game. -/
structure MapRecord where
  territories : List String
  connections : List Connection
  players : List String
  units : List String
  unitStats : Table UnitStats
  /-- By the name of the rule. -/
  productionRules : Table ProductionRule
  startingOwnership : Table String
  startingUnits : List StartingUnit
  initialResources : Table Int64
  victoryCities : List String
  deriving DecidableEq

def MapRecord.empty : MapRecord := ⟨[], [], [], [], ∅, ∅, ∅, [], ∅, []⟩

end Warboard
