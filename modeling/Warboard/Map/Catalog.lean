import Warboard.Map.Record

namespace Warboard

/-- All there is to know about a unit type. -/
structure UnitRule where
  /-- None if no production rule yields the unit. -/
  cost : Option Int64
  attack : Int32
  defense : Int32
  /-- The most edges that a unit crosses in one phase. -/
  movement : UInt32
  deriving DecidableEq, Repr

def UnitRule.ordinary : UnitRule := ⟨none, 0, 0, 1⟩

/-- The rules of all unit types that a map record speaks of. -/
abbrev Catalog := Table UnitRule

namespace Catalog

/-- The unit types of a record, with repetitions. -/
def mentioned (r : MapRecord) : List String :=
  r.units ++ r.unitStats.keys ++ r.productionRules.values.map (·.unit) ++
    r.startingUnits.map (·.unit)

def withStats (s : UnitStats) : UnitRule → UnitRule
  | ⟨cost, _, _, _⟩ => ⟨cost, s.attack.getD 0, s.defense.getD 0, s.movement.getD 1⟩

/-- Of two production rules for one unit type the later by rule name sets the cost. -/
def ofRecord (r : MapRecord) : Catalog :=
  let plain : Catalog := .ofList ((mentioned r).map fun unit => (unit, UnitRule.ordinary))
  let rated := r.unitStats.foldl (fun c unit s => c.modify unit (withStats s)) plain
  r.productionRules.foldl
    (fun c _ rule => c.modify rule.unit fun u => { u with cost := some rule.cost }) rated

variable (c : Catalog)

def movement (unit : String) : UInt32 := (c.getD unit .ordinary).movement

def cost (unit : String) : Option Int64 := (c.getD unit .ordinary).cost

/-- The unit types that can be bought and their costs. -/
def purchasable : List (String × Int64) :=
  c.toList.filterMap fun (unit, rule) => rule.cost.map fun cost => (unit, cost)

end Catalog

end Warboard
