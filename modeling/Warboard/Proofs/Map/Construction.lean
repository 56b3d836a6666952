import Warboard.Proofs.Board.Operation
import Warboard.Proofs.Map.Loading

namespace Warboard

open Checked

theorem Table.getElem?_ofList_map {α : Type} (f : String → α) (names : List String)
    (name : String) : (Std.ExtTreeMap.ofList (names.map fun n => (n, f n)) : Table α)[name]? =
      if name ∈ names then some (f name) else none := by
  have hfold (t : Table α) : (names.foldl (fun t n => t.insert n (f n)) t)[name]? =
      if name ∈ names then some (f name) else t[name]? := by
    induction names generalizing t with
    | nil => rfl
    | cons n names ih =>
        rw [List.foldl_cons, ih, getElem?_insert]
        by_cases hn : n = name
        · simp [hn]
        · simp [hn, Ne.symm hn]
  rw [Std.ExtTreeMap.ofList_eq_foldl, List.foldl_map]
  exact (hfold ∅).trans (by rw [Std.ExtTreeMap.getElem?_empty])

/-- A table that gives each name the same whenever it comes depends on which names come only. -/
theorem Table.ofList_map_congr {α : Type} (f : String → α) {names names' : List String}
    (h : ∀ name, name ∈ names' ↔ name ∈ names) :
    (Std.ExtTreeMap.ofList (names'.map fun n => (n, f n)) : Table α) =
      Std.ExtTreeMap.ofList (names.map fun n => (n, f n)) := by
  ext1 name
  simp only [getElem?_ofList_map, h]

namespace Board

variable {b b₀ : Board}

theorem updateOwner_eq_insert (b : Board) (player : String) (f : Owner → Owner) :
    b.updateOwner player f =
      b.withOwners (b.owners.insert player (f (b.owners[player]?.getD (.new player)))) := by
  rw [Board.mk.injEq]
  refine ⟨rfl, ?_⟩
  ext1 name
  rw [getElem?_updateOwner]
  exact (Table.getElem?_insert ..).symm

theorem foldlM_addUnits (units : List StartingUnit) (h : ∀ name, b.locate name = b₀.locate name) :
    (units.filterMap fun u => (b₀.locate u.territory).map fun i =>
      Operation.addUnits i ⟨u.unit, u.owner⟩ u.quantity).foldlM perform b =
      units.foldlM placeStart b := by
  induction units generalizing b with
  | nil => rfl
  | cons u units ih =>
      rw [List.filterMap_cons, List.foldlM_cons]
      have hplace := h u.territory
      cases hu : b₀.locate u.territory with
      | none =>
          have hnone : b.placeStart u = .ok b := by
            rw [placeStart, hplace, hu]
          rw [hnone]
          exact ih h
      | some i =>
          have hsome : b.placeStart u = b.addUnits i ⟨u.unit, u.owner⟩ u.quantity := by
            rw [placeStart, hplace, hu]
          rw [Option.map_some, List.foldlM_cons, hsome]
          change b.addUnits i _ _ >>= _ = _
          cases hb : b.addUnits i ⟨u.unit, u.owner⟩ u.quantity with
          | error e => rfl
          | ok b' => exact ih fun name => ((sameGround_addUnits hb).locate_eq name).trans (h name)

theorem foldlM_connect (connections : List Connection) (b : Board) :
    (connections.map fun c => Operation.connect c.origin c.target).foldlM perform b =
      .ok (connections.foldl link b) := by
  rw [List.foldlM_map]
  exact List.foldlM_pure

/-- The first balance of a player makes the record, if there is none. -/
theorem adjustBalance_of_fresh {player : String} (amount : Int64)
    (h : b.owners[player]?.getD (.new player) = .new player) :
    b.adjustBalance player amount =
      .ok (b.withOwners (b.owners.insert player { Owner.new player with balance := amount })) := by
  have hzero : b.balanceOf player = 0 := by
    have hrecord : b.balanceOf player = (b.owners[player]?.getD (.new player)).balance := by
      rw [balanceOf]
      cases b.owners[player]? <;> rfl
    rw [hrecord, h]
    rfl
  have hsum : addAmount (b.balanceOf player) amount = .ok amount := by
    rw [hzero, addAmount_eq_ok_iff]
    exact (Int.zero_add _).symm
  rw [adjustBalance, hsum]
  exact congrArg Except.ok ((b.updateOwner_eq_insert ..).trans (by rw [h]))

theorem foldlM_adjustBalance {entries : List (String × Int64)}
    (hentries : (entries.map Prod.fst).Nodup)
    (hfresh : ∀ e ∈ entries, b.owners[e.1]?.getD (.new e.1) = .new e.1) :
    (entries.map fun e => Operation.adjustBalance e.1 e.2).foldlM perform b =
      .ok (b.withOwners (entries.foldl
        (fun owners e => owners.insert e.1 { Owner.new e.1 with balance := e.2 }) b.owners)) := by
  induction entries generalizing b with
  | nil => rfl
  | cons e entries ih =>
      obtain ⟨he, hfresh⟩ := List.forall_mem_cons.1 hfresh
      obtain ⟨hnew, hentries⟩ := List.nodup_cons.1 hentries
      rw [List.map_cons, List.foldlM_cons, perform, adjustBalance_of_fresh e.2 he]
      refine ih hentries fun e' he' => ?_
      have hne : e.1 ≠ e'.1 := fun h => hnew (h ▸ List.mem_map_of_mem he')
      rw [withOwners, Table.getElem?_insert, if_neg hne, hfresh e' he']

theorem owners_withCities (b : Board) (cities : List String) :
    (b.withCities cities).owners = b.owners := by
  refine List.foldlRecOn (motive := fun c : Board => c.owners = b.owners) cities _ rfl ?_
  intro c hc city _
  rw [addVictoryCity_eq_amend]
  exact hc

theorem owners_foldl_link (b : Board) (connections : List Connection) :
    (connections.foldl link b).owners = b.owners := by
  refine List.foldlRecOn (motive := fun c : Board => c.owners = b.owners) connections _ rfl ?_
  intro c hc connection _
  rw [link_eq_amend]
  exact hc

def plain (r : MapRecord) : Board :=
  ⟨bare r, .ofList (r.players.map fun name => (name, Owner.new name))⟩

/-- The map without units and connections, and its players without money. -/
def unfurnished (r : MapRecord) : Board := (plain r).withCities r.victoryCities

end Board

namespace MapRecord

/-- The record without all that comes to the map at the start. -/
def unfurnished (r : MapRecord) : MapRecord :=
  { r with startingUnits := [], connections := [], initialResources := ∅ }

/-- What brings the units, the connections and the balances of the record to a board. The balances
come in the order of the listing. -/
def Listing.operations {r : MapRecord} (l : Listing r) (b : Board) : List Board.Operation :=
  (r.startingUnits.filterMap fun u => (b.locate u.territory).map fun i =>
    .addUnits i ⟨u.unit, u.owner⟩ u.quantity) ++
  (r.connections.map fun c => .connect c.origin c.target) ++
  l.resources.map fun e => .adjustBalance e.1 e.2

end MapRecord

namespace Board

variable {b b₀ : Board}

theorem ofRecord_unfurnished (r : MapRecord) : ofRecord r.unfurnished = .ok (unfurnished r) := by
  have howners : startingOwners r.unfurnished =
      .ofList (r.players.map fun name => (name, Owner.new name)) := by
    rw [startingOwners, Std.ExtTreeMap.foldl_eq_foldl_toList]
    rfl
  rw [ofRecord, howners]
  rfl

theorem fresh_of_players (players : List String) (name : String) :
    ((Std.ExtTreeMap.ofList (players.map fun name => (name, Owner.new name)) : Table Owner)[name]?
      ).getD (.new name) = .new name := by
  rw [Table.getElem?_ofList_map]
  split <;> rfl

/-- What comes first, the cities and the money or the units and the connections, does not matter. -/
theorem ofRecord_eq_withOwners (r : MapRecord) : ofRecord r = (do
    let b ← r.startingUnits.foldlM placeStart (unfurnished r)
    return (r.connections.foldl link b).withOwners (startingOwners r)) := by
  have hload : ofRecord r = (do
      let b ← r.startingUnits.foldlM placeStart ((plain r).withOwners (startingOwners r))
      return (r.connections.foldl link b).withCities r.victoryCities) := rfl
  have howned := foldlM_map (h := (withOwners · (startingOwners r)))
    (fun b u => placeStart_withOwners b _ u) r.startingUnits (plain r)
  have hcrowned := foldlM_map (h := (withCities · r.victoryCities))
    (fun b u => placeStart_withCities b _ u) r.startingUnits (plain r)
  rw [hload, howned, unfurnished, hcrowned]
  cases r.startingUnits.foldlM placeStart (plain r) with
  | error e => rfl
  | ok b =>
      refine congrArg Except.ok ?_
      have howners : r.connections.foldl link (b.withOwners (startingOwners r)) =
          (r.connections.foldl link b).withOwners (startingOwners r) :=
        List.foldl_hom (withOwners · _) fun b c => link_withOwners b _ c
      have hcities : r.connections.foldl link (b.withCities r.victoryCities) =
          (r.connections.foldl link b).withCities r.victoryCities :=
        List.foldl_hom (withCities · _) fun b c => link_withCities b _ c
      change (r.connections.foldl link (b.withOwners _)).withCities _ =
        (r.connections.foldl link (b.withCities _)).withOwners _
      rw [howners, hcities, withCities_withOwners]

/-- The primitives make the board that the record is loaded to, whatever player gets money first. -/
theorem ofRecord_eq_operations {r : MapRecord} (l : MapRecord.Listing r) :
    ofRecord r = (l.operations (unfurnished r)).foldlM perform (unfurnished r) := by
  have hkeys : (l.resources.map Prod.fst).Nodup := by
    rw [(l.resources_perm.map Prod.fst).nodup_iff, Std.ExtTreeMap.map_fst_toList_eq_keys]
    exact Std.ExtTreeMap.nodup_keys
  rw [ofRecord_eq_withOwners, MapRecord.Listing.operations, List.append_assoc, List.foldlM_append,
    foldlM_addUnits r.startingUnits fun _ => rfl]
  cases hunits : r.startingUnits.foldlM placeStart (unfurnished r) with
  | error e => rfl
  | ok b =>
      have howners : (r.connections.foldl link b).owners =
          .ofList (r.players.map fun name => (name, Owner.new name)) := by
        have hplaced : b.owners = (unfurnished r).owners :=
          foldlM_keeps (P := fun b => b.owners = (unfurnished r).owners)
            (fun b u b' hb h => (owners_placeStart h).trans hb) rfl hunits
        rw [owners_foldl_link, hplaced, unfurnished, owners_withCities, plain]
      change .ok _ = ((r.connections.map fun c => Operation.connect c.origin c.target) ++
        l.resources.map fun e => Operation.adjustBalance e.1 e.2).foldlM perform b
      rw [List.foldlM_append, foldlM_connect]
      refine (Eq.trans ?_ (foldlM_adjustBalance hkeys fun e _ => ?_).symm)
      · rw [howners, ← enlist_eq l]
        rfl
      · rw [howners]
        exact fresh_of_players r.players e.1

end Board

namespace MapRecord

/-- There is a connection between the two names, whichever comes first in it. -/
def Connects (r : MapRecord) (origin target : String) : Prop :=
  ⟨origin, target⟩ ∈ r.connections ∨ ⟨target, origin⟩ ∈ r.connections

/-- The records differ at most in the order and the number of what they list without a meaning to
its place, and in which end of a connection comes first. -/
structure SameMap (r r' : MapRecord) : Prop where
  territories : r'.territories = r.territories
  connections : ∀ origin target, r'.Connects origin target ↔ r.Connects origin target
  players : ∀ name, name ∈ r'.players ↔ name ∈ r.players
  units : ∀ unit, unit ∈ r'.units ↔ unit ∈ r.units
  unitStats : r'.unitStats = r.unitStats
  productionRules : r'.productionRules = r.productionRules
  startingOwnership : r'.startingOwnership = r.startingOwnership
  startingUnits : r'.startingUnits = r.startingUnits
  initialResources : r'.initialResources = r.initialResources
  victoryCities : ∀ name, name ∈ r'.victoryCities ↔ name ∈ r.victoryCities

namespace SameMap

variable {r r' : MapRecord}

theorem catalog_eq (h : SameMap r r') : Catalog.ofRecord r' = Catalog.ofRecord r := by
  have hmentioned (unit : String) : unit ∈ Catalog.mentioned r' ↔ unit ∈ Catalog.mentioned r := by
    simp only [Catalog.mentioned, List.mem_append, h.units, h.unitStats, h.productionRules,
      h.startingUnits]
  rw [Catalog.ofRecord, Catalog.ofRecord,
    Table.ofList_map_congr (fun _ => UnitRule.ordinary) hmentioned, h.unitStats, h.productionRules]

theorem foldl_link_eq (h : SameMap r r') (b : Board) :
    r'.connections.foldl Board.link b = r.connections.foldl Board.link b := by
  have hfound {r r' : MapRecord} (h : ∀ origin target, r.Connects origin target →
      r'.Connects origin target) (c : Connection) (hc : c ∈ r.connections) :
      ∃ d ∈ r'.connections, ∀ b : Board, b.link c = b.link d := by
    obtain hc | hc := h c.origin c.target (Or.inl hc)
    · exact ⟨_, hc, fun _ => rfl⟩
    · exact ⟨_, hc, fun b => b.link_swap c.origin c.target⟩
  exact foldl_eq_of_steps Board.link_comm Board.link_link_self
    (hfound fun origin target => (h.connections origin target).1)
    (hfound fun origin target => (h.connections origin target).2) b

theorem withCities_eq (h : SameMap r r') (b : Board) :
    b.withCities r'.victoryCities = b.withCities r.victoryCities :=
  foldl_eq_of_steps Board.addVictoryCity_comm Board.addVictoryCity_self
    (fun city hcity => ⟨city, (h.victoryCities city).1 hcity, fun _ => rfl⟩)
    (fun city hcity => ⟨city, (h.victoryCities city).2 hcity, fun _ => rfl⟩) b

theorem board_eq (h : SameMap r r') : Board.ofRecord r' = Board.ofRecord r := by
  have hplayers := Table.ofList_map_congr Owner.new h.players
  have hplain : Board.unfurnished r' = Board.unfurnished r := by
    rw [Board.unfurnished, Board.unfurnished, Board.plain, Board.plain, Board.bare, Board.bare,
      hplayers, h.withCities_eq, h.territories, h.startingOwnership]
  have howners : Board.startingOwners r' = Board.startingOwners r := by
    rw [Board.startingOwners, Board.startingOwners, hplayers, h.initialResources]
  simp only [Board.ofRecord_eq_withOwners, hplain, howners, h.startingUnits, h.foldl_link_eq]

end SameMap

end MapRecord

namespace World

/-- A map is loaded as the primitives would build it, from the map without units, connections and
money, and with the balances in any order. What the record lists in another order, more than once
or, of a connection, the other way round makes no difference. -/
theorem ofRecord_built (r : MapRecord) :
    (∀ l l' : MapRecord.Listing r, ∃ w, ofRecord r.unfurnished = .ok w ∧
      (ofRecord r).map board = Board.load l ∧
      Board.load l = (l'.operations w.board).foldlM Board.perform w.board) ∧
    ∀ r', r.SameMap r' → ofRecord r' = ofRecord r ∧
      ∀ l : MapRecord.Listing r', gather l = ofRecord r := by
  constructor
  · intro l l'
    have hw : ofRecord r.unfurnished =
        .ok ⟨.ofRecord r.unfurnished, .unfurnished r, .unfurnished r, none, 1⟩ := by
      rw [ofRecord, Board.ofRecord_unfurnished]
      rfl
    refine ⟨_, hw, ?_, ?_⟩
    · rw [Board.load_eq, ofRecord]
      cases Board.ofRecord r <;> rfl
    · rw [Board.load_eq, Board.ofRecord_eq_operations l']
  · intro r' h
    have hsame : ofRecord r' = ofRecord r := by
      rw [ofRecord, ofRecord, h.board_eq, h.catalog_eq]
    exact ⟨hsame, fun l => (gather_eq l).trans hsame⟩

/-- Two territories of one name, unknown ones, a connection of a territory with itself, a stack that
begins with no units, and a player with nothing but money. -/
def frontier : MapRecord :=
  { MapRecord.empty with
    territories := ["Sound", "Cape", "Sound"]
    connections := [⟨"Sound", "Cape"⟩, ⟨"Cape", "Cape"⟩, ⟨"Cape", "Bay"⟩]
    players := ["Red", "Blue"]
    units := ["infantry", "armour"]
    startingUnits := [⟨"infantry", "Sound", 0, "Red"⟩, ⟨"armour", "Bay", 1, "Red"⟩,
      ⟨"infantry", "Sound", 2, "Red"⟩]
    initialResources := (∅ : Table Int64).insert "Red" 3 |>.insert "Green" 5
    victoryCities := ["Cape", "Bay"] }

/-- The frontier, told again. -/
def retold : MapRecord :=
  { frontier with
    connections := [⟨"Bay", "Cape"⟩, ⟨"Cape", "Sound"⟩, ⟨"Cape", "Cape"⟩, ⟨"Sound", "Cape"⟩]
    players := ["Blue", "Red"]
    units := ["armour", "infantry"]
    victoryCities := ["Bay", "Cape"] }

theorem ofRecord_built_frontier : (∃ w, ofRecord frontier = .ok w) ∧ frontier.SameMap retold ∧
    ofRecord retold = ofRecord frontier ∧
    (∀ l : MapRecord.Listing retold, gather l = ofRecord frontier) ∧
    ∀ l l' : MapRecord.Listing frontier, ∃ w, ofRecord frontier.unfurnished = .ok w ∧
      (ofRecord frontier).map board = Board.load l ∧
      Board.load l = (l'.operations w.board).foldlM Board.perform w.board := by
  have hok : ((ofRecord frontier).map fun _ => ()).toOption = some () := by decide +kernel
  have hsame : frontier.SameMap retold := by
    refine ⟨rfl, fun origin target => ?_, fun name => ?_, fun unit => ?_, rfl, rfl, rfl, rfl, rfl,
      fun name => ?_⟩
    · simp only [MapRecord.Connects, retold, frontier, List.mem_cons, Connection.mk.injEq,
        List.not_mem_nil, or_false]
      grind
    · simp [retold, frontier, or_comm]
    · simp [retold, frontier, or_comm]
    · simp [retold, frontier, or_comm]
  obtain ⟨w, hw, -⟩ := exists_ok_of_map hok
  obtain ⟨hbuilt, hretold⟩ := ofRecord_built frontier
  obtain ⟨heq, hgather⟩ := hretold retold hsame
  exact ⟨⟨w, hw⟩, hsame, heq, hgather, hbuilt⟩

end World

end Warboard
