import Warboard.Board.World
import Warboard.Map.Builder
import Warboard.Proofs.Map.Format

namespace Warboard

open MapRecord

variable {r : MapRecord}

namespace Catalog

/-- The catalogue as it comes about when the strengths of the units are gone through in this order. -/
def gather (l : Listing r) : Catalog :=
  let mentioned := r.units ++ l.stats.map Prod.fst ++ r.productionRules.values.map (·.unit) ++
    r.startingUnits.map (·.unit)
  let plain : Catalog := .ofList (mentioned.map fun unit => (unit, UnitRule.ordinary))
  let rated := l.stats.foldl (fun c e => c.modify e.1 (withStats e.2)) plain
  r.productionRules.foldl
    (fun c _ rule => c.modify rule.unit fun u => { u with cost := some rule.cost }) rated

/-- Each unit type has one entry for its strengths, so that they can be set in any order. -/
theorem foldl_withStats (l : Listing r) (c : Catalog) :
    l.stats.foldl (fun c e => c.modify e.1 (withStats e.2)) c =
      r.unitStats.foldl (fun c unit s => c.modify unit (withStats s)) c := by
  rw [Std.ExtTreeMap.foldl_eq_foldl_toList]
  refine l.stats_perm.foldl_eq' (fun e he e' he' c => ?_) c
  by_cases hkey : e.1 = e'.1
  · have hvalue :=
      Table.eq_of_mem_toList (l.stats_perm.mem_iff.1 he) (l.stats_perm.mem_iff.1 he') hkey
    rw [hkey, hvalue]
  · exact Table.modify_comm c hkey _ _

theorem gather_eq (l : Listing r) : gather l = ofRecord r := by
  have hnames : (l.stats.map Prod.fst).Perm r.unitStats.keys := by
    rw [← Std.ExtTreeMap.map_fst_toList_eq_keys]
    exact l.stats_perm.map Prod.fst
  have hplain : Std.ExtTreeMap.ofList ((r.units ++ l.stats.map Prod.fst ++
      r.productionRules.values.map (·.unit) ++ r.startingUnits.map (·.unit)).map
        fun unit => (unit, UnitRule.ordinary)) =
      Std.ExtTreeMap.ofList ((mentioned r).map fun unit => (unit, UnitRule.ordinary)) := by
    have hmentioned := ((hnames.append_left r.units).append_right
      (r.productionRules.values.map (·.unit))).append_right (r.startingUnits.map (·.unit))
    refine Table.ofList_perm (hmentioned.map _) ?_
    intro e he e' he' _
    obtain ⟨unit, -, rfl⟩ := List.mem_map.1 he
    obtain ⟨unit', -, rfl⟩ := List.mem_map.1 he'
    rfl
  rw [gather, ofRecord, hplain, foldl_withStats]

end Catalog

namespace Board

/-- The players' records as they come about when the balances are gone through in this order. -/
def enlist (l : Listing r) : Table Owner :=
  l.resources.foldl (fun owners e => owners.insert e.1 { Owner.new e.1 with balance := e.2 })
    (.ofList (r.players.map fun name => (name, Owner.new name)))

theorem enlist_eq (l : Listing r) : enlist l = startingOwners r := by
  rw [enlist, startingOwners, Std.ExtTreeMap.foldl_eq_foldl_toList]
  refine l.resources_perm.foldl_eq' (fun e he e' he' owners => ?_) _
  by_cases hkey : e.1 = e'.1
  · have hvalue :=
      Table.eq_of_mem_toList (l.resources_perm.mem_iff.1 he) (l.resources_perm.mem_iff.1 he') hkey
    rw [hkey, hvalue]
  · exact Table.insert_comm owners hkey _ _

/-- The map with its units and connections, for players with these records. -/
def furnish (r : MapRecord) (owners : Table Owner) : Checked Board := do
  let b ← r.startingUnits.foldlM placeStart ⟨bare r, owners⟩
  let b := r.connections.foldl (fun b c => (b.connect c.origin c.target).getD b) b
  return r.victoryCities.foldl addVictoryCity b

theorem furnish_startingOwners (r : MapRecord) : furnish r (startingOwners r) = ofRecord r := rfl

end Board

namespace World

/-- The world as it comes about when the unordered tables of the record are gone through in this
order. -/
def gather (l : Listing r) : Checked World := do
  let board ← Board.furnish r (Board.enlist l)
  return ⟨Catalog.gather l, board, board, none, 1⟩

theorem gather_eq (l : Listing r) : gather l = ofRecord r := by
  rw [gather, Board.enlist_eq, Board.furnish_startingOwners, Catalog.gather_eq]
  rfl

end World

theorem MapRecord.ofText_render_listing {sp : Json.Spacing} (hsp : sp.IsBlank) (l : Listing r) :
    ofText (l.toJson.render sp) = some r := by
  rw [ofText, Json.parse_render hsp l.written_toJson]
  exact l.ofJson_toJson

/-- A record that is written, in name order or with the entries of its tables in any other, is read
back, and the catalogue and the world made from it are the same, in whatever order they are made. -/
theorem MapRecord.ofText_render {sp : Json.Spacing} (hsp : sp.IsBlank) (r : MapRecord) :
    ofText (r.toJson.render sp) = some r ∧ ∀ l : Listing r, ofText (l.toJson.render sp) = some r ∧
      Catalog.gather l = Catalog.ofRecord r ∧ World.gather l = World.ofRecord r := by
  refine ⟨ofText_render_listing hsp (.sorted r), fun l => ⟨ofText_render_listing hsp l, ?_⟩⟩
  exact ⟨Catalog.gather_eq l, World.gather_eq l⟩

namespace MapRecord

/-- Names with marks of the format in them, strengths that are not given, and the extreme balances. -/
def quaint : MapRecord :=
  { empty with
    territories := ["Ural \"east\"", "\x7b\\\x7d\n"]
    unitStats := (∅ : Table UnitStats).insert "a: 1" ⟨none, some (-1), none⟩
      |>.insert "b" ⟨none, none, some 2⟩
    initialResources := (∅ : Table Int64).insert "Blue" Int64.minValue
      |>.insert "Red" Int64.maxValue }

/-- The entries of the tables in the order against that of the names. -/
def backwards (r : MapRecord) : Listing r :=
  ⟨_, _, _, r.unitStats.toList.reverse_perm, r.startingOwnership.toList.reverse_perm,
    r.initialResources.toList.reverse_perm⟩

theorem ofText_render_quaint : Json.Spacing.compact.IsBlank ∧
    (backwards quaint).toJson.render .compact ≠ quaint.toJson.render .compact ∧
    ofText ((backwards quaint).toJson.render .compact) = some quaint ∧
    World.gather (backwards quaint) = World.ofRecord quaint := by
  have hblank := Json.Spacing.compact_isBlank
  obtain ⟨-, hlisting⟩ := ofText_render hblank quaint
  obtain ⟨hread, -, hworld⟩ := hlisting (backwards quaint)
  exact ⟨hblank, by decide +kernel, hread, hworld⟩

end MapRecord

end Warboard
