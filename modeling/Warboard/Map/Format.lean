import Warboard.Map.Record
import Warboard.Json.Fields
import Warboard.Json.Parser
import Warboard.Json.Printer

namespace Warboard

namespace Table

variable {α : Type}

def toJson (f : α → Json) (t : Table α) : Json := .record (t.toList.map fun (k, v) => (k, f v))

/-- Of a repeated key the last value is kept. -/
def ofJson (f : Json → Option α) (j : Json) : Option (Table α) :=
  (j.entries? f).map fun es => .ofList es

end Table

namespace Connection

def toJson (c : Connection) : Json :=
  .record [("from", .ofString c.origin), ("to", .ofString c.target)]

def ofJson (j : Json) : Option Connection := do
  let [some origin, some target] ← j.columns ["from", "to"] | none
  return ⟨← origin.string?, ← target.string?⟩

end Connection

namespace UnitStats

def toJson (s : UnitStats) : Json :=
  .record [("attack", .ofOption (fun n => .ofInt n.toInt) s.attack),
    ("defense", .ofOption (fun n => .ofInt n.toInt) s.defense),
    ("movement", .ofOption (fun n => .ofNat n.toNat) s.movement)]

def ofJson (j : Json) : Option UnitStats := do
  let [attack, defense, movement] ← j.columns ["attack", "defense", "movement"] | none
  return ⟨← Json.orElse none (Json.option? Json.int32?) attack,
    ← Json.orElse none (Json.option? Json.int32?) defense,
    ← Json.orElse none (Json.option? Json.uint32?) movement⟩

end UnitStats

namespace ProductionRule

def toJson (r : ProductionRule) : Json :=
  .record [("unit", .ofString r.unit), ("cost", .ofInt r.cost.toInt)]

def ofJson (j : Json) : Option ProductionRule := do
  let [some unit, some cost] ← j.columns ["unit", "cost"] | none
  return ⟨← unit.string?, ← cost.int64?⟩

end ProductionRule

namespace StartingUnit

def toJson (u : StartingUnit) : Json :=
  .record [("unit", .ofString u.unit), ("territory", .ofString u.territory),
    ("quantity", .ofNat u.quantity.toNat), ("owner", .ofString u.owner)]

def ofJson (j : Json) : Option StartingUnit := do
  let [some unit, some territory, some quantity, owner] ←
    j.columns ["unit", "territory", "quantity", "owner"] | none
  return ⟨← unit.string?, ← territory.string?, ← quantity.uint32?,
    ← Json.orElse neutral Json.string? owner⟩

end StartingUnit

namespace MapRecord

def fields : List String :=
  ["territories", "connections", "players", "units", "unit_stats", "production_rules",
   "starting_ownership", "starting_units", "initial_resources", "victory_cities"]

def toJson (r : MapRecord) : Json :=
  .record (fields.zip
    [.array (r.territories.map .ofString),
     .array (r.connections.map Connection.toJson),
     .array (r.players.map .ofString),
     .array (r.units.map .ofString),
     r.unitStats.toJson UnitStats.toJson,
     r.productionRules.toJson ProductionRule.toJson,
     r.startingOwnership.toJson .ofString,
     .array (r.startingUnits.map StartingUnit.toJson),
     r.initialResources.toJson fun n => .ofInt n.toInt,
     .array (r.victoryCities.map .ofString)])

/-- Only the territories have to be given. -/
def ofJson (j : Json) : Option MapRecord := do
  let [some territories, connections, players, units, unitStats, productionRules,
    startingOwnership, startingUnits, initialResources, victoryCities] ← j.columns fields | none
  return {
    territories := ← territories.list? Json.string?
    connections := ← Json.orElse [] (Json.list? Connection.ofJson) connections
    players := ← Json.orElse [] (Json.list? Json.string?) players
    units := ← Json.orElse [] (Json.list? Json.string?) units
    unitStats := ← Json.orElse ∅ (Table.ofJson UnitStats.ofJson) unitStats
    productionRules := ← Json.orElse ∅ (Table.ofJson ProductionRule.ofJson) productionRules
    startingOwnership := ← Json.orElse ∅ (Table.ofJson Json.string?) startingOwnership
    startingUnits := ← Json.orElse [] (Json.list? StartingUnit.ofJson) startingUnits
    initialResources := ← Json.orElse ∅ (Table.ofJson Json.int64?) initialResources
    victoryCities := ← Json.orElse [] (Json.list? Json.string?) victoryCities }

def ofText (t : Text) : Option MapRecord := Json.parse t >>= ofJson

end MapRecord

end Warboard
