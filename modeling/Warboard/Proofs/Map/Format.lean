import Warboard.Proofs.Json.Table

namespace Warboard

namespace Json

theorem option?_ofOption {α : Type} {f : α → Json} {g : Json → Option α}
    (h : ∀ a, g (f a) = some a) (hnull : ∀ a, f a ≠ .null) (o : Option α) :
    (ofOption f o).option? g = some o := by
  cases o with
  | none => rfl
  | some a =>
      rw [ofOption, option?]
      · rw [h]
        rfl
      · exact hnull a

theorem written_ofOption {α : Type} {f : α → Json} (h : ∀ a, Written (f a)) (o : Option α) :
    Written (ofOption f o) := by
  cases o with
  | none => exact .null
  | some a => exact h a

end Json

open Json

theorem Connection.written_toJson (c : Connection) : Written c.toJson :=
  written_record_of_forall ⟨written_ofString _, written_ofString _⟩

theorem Connection.ofJson_toJson (c : Connection) : ofJson c.toJson = some c := by
  rw [ofJson, toJson, columns_record]
  simp [column, string?_ofString]

theorem UnitStats.written_toJson (s : UnitStats) : Written s.toJson := by
  have hstat (o : Option Int32) : Written (ofOption (fun n => .ofInt n.toInt) o) :=
    written_ofOption (fun _ => written_ofInt _) o
  exact written_record_of_forall ⟨hstat _, hstat _, written_ofOption (fun _ => written_ofNat _) _⟩

theorem UnitStats.ofJson_toJson (s : UnitStats) : ofJson s.toJson = some s := by
  have hstat (o : Option Int32) :
      (ofOption (fun n => .ofInt n.toInt) o).option? int32? = some o :=
    option?_ofOption int32?_ofInt (fun _ h => by cases h) o
  have hmovement (o : Option UInt32) :
      (ofOption (fun n => .ofNat n.toNat) o).option? uint32? = some o :=
    option?_ofOption uint32?_ofNat (fun _ h => by cases h) o
  rw [ofJson, toJson, columns_record]
  simp [column, orElse, hstat, hmovement]

theorem ProductionRule.written_toJson (r : ProductionRule) : Written r.toJson :=
  written_record_of_forall ⟨written_ofString _, written_ofInt _⟩

theorem ProductionRule.ofJson_toJson (r : ProductionRule) : ofJson r.toJson = some r := by
  rw [ofJson, toJson, columns_record]
  simp [column, string?_ofString, int64?_ofInt]

theorem StartingUnit.written_toJson (u : StartingUnit) : Written u.toJson :=
  written_record_of_forall ⟨written_ofString _, written_ofString _, written_ofNat _,
    written_ofString _⟩

theorem StartingUnit.ofJson_toJson (u : StartingUnit) : ofJson u.toJson = some u := by
  rw [ofJson, toJson, columns_record]
  simp [column, orElse, string?_ofString, uint32?_ofNat]

namespace MapRecord

variable {r : MapRecord}

/-- The orders in which the entries of a record's unordered tables come. -/
structure Listing (r : MapRecord) where
  stats : List (String × UnitStats)
  ownership : List (String × String)
  resources : List (String × Int64)
  stats_perm : stats.Perm r.unitStats.toList
  ownership_perm : ownership.Perm r.startingOwnership.toList
  resources_perm : resources.Perm r.initialResources.toList

namespace Listing

def sorted (r : MapRecord) : Listing r :=
  ⟨_, _, _, .refl r.unitStats.toList, .refl r.startingOwnership.toList,
    .refl r.initialResources.toList⟩

/-- The record as it is written with the entries in this order. -/
def toJson (l : Listing r) : Json :=
  .record (fields.zip
    [.array (r.territories.map .ofString),
     .array (r.connections.map Connection.toJson),
     .array (r.players.map .ofString),
     .array (r.units.map .ofString),
     .record (l.stats.map fun (unit, s) => (unit, s.toJson)),
     r.productionRules.toJson ProductionRule.toJson,
     .record (l.ownership.map fun (territory, owner) => (territory, .ofString owner)),
     .array (r.startingUnits.map StartingUnit.toJson),
     .record (l.resources.map fun (player, n) => (player, .ofInt n.toInt)),
     .array (r.victoryCities.map .ofString)])

theorem ofJson_toJson (l : Listing r) : ofJson l.toJson = some r := by
  rw [ofJson, toJson, columns_record]
  simp [fields, column, orElse, list?_array string?_ofString, list?_array Connection.ofJson_toJson,
    list?_array StartingUnit.ofJson_toJson, Table.ofJson_toJson ProductionRule.ofJson_toJson,
    Table.ofJson_record UnitStats.ofJson_toJson l.stats_perm,
    Table.ofJson_record string?_ofString l.ownership_perm,
    Table.ofJson_record int64?_ofInt l.resources_perm]

theorem written_toJson (l : Listing r) : Written l.toJson := by
  have hnames (names : List String) : Written (.array (names.map ofString)) :=
    written_array written_ofString names
  exact written_record_of_forall ⟨hnames _, written_array Connection.written_toJson _, hnames _,
    hnames _, written_entries UnitStats.written_toJson _,
    Table.written_toJson ProductionRule.written_toJson _, written_entries written_ofString _,
    written_array StartingUnit.written_toJson _, written_entries (fun _ => written_ofInt _) _,
    hnames _⟩

end Listing

end MapRecord

end Warboard
