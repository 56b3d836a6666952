import Warboard.Proofs.Board.Amend
import Warboard.Proofs.Map.Listing

namespace Warboard

open Checked

namespace Stack

variable {key : UnitKey} {n : UInt32}

/-- More units for the first stack of the key. A stack that is not there yet is put at the end. -/
def merge (key : UnitKey) (n : UInt32) (units : List Stack) : Checked (List Stack) :=
  match units.dropWhile fun s => s.key ≠ key with
  | s :: later => do
    let total ← addQuantity s.quantity n
    return units.takeWhile (fun s => s.key ≠ key) ++ { s with quantity := total } :: later
  | [] => .ok (units ++ [⟨key, n, .fresh⟩])

theorem merge_eq_addTo (units : List Stack) : merge key n units = addTo key n units := by
  induction units with
  | nil => rfl
  | cons s units ih =>
      rw [addTo, ← ih, merge, merge]
      by_cases hs : s.key = key
      · simp [hs]
      · simp only [hs, List.dropWhile_cons, List.takeWhile_cons, ne_eq, not_false_eq_true,
          decide_true, if_true, if_false]
        cases units.dropWhile fun s => s.key ≠ key with
        | nil => rfl
        | cons t later =>
            dsimp only
            cases addQuantity t.quantity n <;> rfl

end Stack

/-- The numbers of the names on the list; of one that comes twice, the last. -/
def MapRecord.index (names : List String) : Table TerritoryId := .ofList names.zipIdx

namespace Board

variable {index : Table TerritoryId} {b : Board}

theorem getElem?_index (ts : List Territory) (name : String) :
    (MapRecord.index (ts.map Territory.name))[name]? = locateIn name ts := by
  have hfold (k : Nat) (t : Table TerritoryId) :
      (((ts.map Territory.name).zipIdx k).foldl (fun t p => t.insert p.1 p.2) t)[name]? =
        ((locateIn name ts).map (· + k)).or t[name]? := by
    induction ts generalizing k t with
    | nil => rfl
    | cons u ts ih =>
        rw [List.map_cons, List.zipIdx_cons, List.foldl_cons, ih, Table.getElem?_insert, locateIn]
        cases locateIn name ts with
        | some i => simp [Nat.add_right_comm, Nat.add_assoc]
        | none =>
            by_cases hu : u.name = name <;> simp [hu]
  rw [MapRecord.index, Std.ExtTreeMap.ofList_eq_foldl]
  refine (hfold 0 ∅).trans ?_
  rw [Std.ExtTreeMap.getElem?_empty]
  cases locateIn name ts <;> rfl

/-- One entry of the starting units. -/
def garrison (index : Table TerritoryId) (ts : List Territory) (u : StartingUnit) :
    Checked (List Territory) :=
  match index[u.territory]? with
  | none => .ok ts
  | some i =>
    match ts[i]? with
    | none => .ok ts
    | some t => do
      let units ← Stack.merge ⟨u.unit, u.owner⟩ u.quantity t.units
      return ts.modify i fun t => { t with units := units }

/-- One connection, at both of its ends. -/
def join (index : Table TerritoryId) (adjacency : List (Std.ExtTreeSet TerritoryId))
    (c : Connection) : List (Std.ExtTreeSet TerritoryId) :=
  match index[c.origin]?, index[c.target]? with
  | some i, some j =>
    if i = j then adjacency else (adjacency.modify i (·.insert j)).modify j (·.insert i)
  | _, _ => adjacency

/-- The board as it comes about when units, connections, records and victory cities are gone through
on their own, and the players' balances in this order. -/
def load {r : MapRecord} (l : MapRecord.Listing r) : Checked Board := do
  let index := MapRecord.index r.territories
  let garrisons ← r.startingUnits.foldlM (garrison index) (bare r)
  let adjacency := r.connections.foldl (join index) (r.territories.map fun _ => ∅)
  let cities := r.victoryCities.filterMap (index[·]?)
  let territories := garrisons.mapIdx fun i t =>
    { t with neighbors := adjacency[i]?.getD ∅, victoryCity := cities.contains i }
  return ⟨territories, enlist l⟩

theorem garrison_eq (hindex : ∀ name, index[name]? = b.locate name) (u : StartingUnit) :
    garrison index b.territories u = (b.placeStart u).map territories := by
  rw [garrison, placeStart, hindex]
  cases b.locate u.territory with
  | none => rfl
  | some i =>
      dsimp only
      rw [addUnits]
      cases ht : b.territories[i]? with
      | none => rfl
      | some t =>
          dsimp only
          rw [Stack.merge_eq_addTo]
          cases Stack.addTo ⟨u.unit, u.owner⟩ u.quantity t.units <;> rfl

theorem foldlM_garrison (hindex : ∀ name, index[name]? = b.locate name)
    (units : List StartingUnit) :
    units.foldlM (garrison index) b.territories =
      (units.foldlM placeStart b).map territories := by
  induction units generalizing b with
  | nil => rfl
  | cons u units ih =>
      rw [List.foldlM_cons, List.foldlM_cons, garrison_eq hindex]
      cases hb : b.placeStart u with
      | error e => rfl
      | ok b' =>
          have hlocate := (sameGround_placeStart hb).locate_eq
          exact ih fun name => (hindex name).trans (hlocate name).symm

/-- The neighbours of a territory with all that the connections give it. -/
def joinAll (b : Board) (connections : List Connection) (k : TerritoryId)
    (neighbors : Std.ExtTreeSet TerritoryId) : Std.ExtTreeSet TerritoryId :=
  connections.foldl (fun s c => (newNeighbor (b.ends c.origin c.target) k).elim s (s.insert ·))
    neighbors

theorem foldl_link_eq_amend (connections : List Connection) (b : Board) :
    connections.foldl link b =
      b.amend fun k t => { t with neighbors := b.joinAll connections k t.neighbors } := by
  induction connections generalizing b with
  | nil => exact (amend_id b).symm
  | cons c connections ih =>
      rw [List.foldl_cons, ih]
      have hjoin : (b.link c).joinAll connections = b.joinAll connections := by
        funext k neighbors
        simp only [joinAll, ends_congr (b.locate_link c)]
      rw [hjoin, link_eq_amend, amend_amend]
      rfl

theorem getElem?_join (hindex : ∀ name, index[name]? = b.locate name)
    (adjacency : List (Std.ExtTreeSet TerritoryId)) (c : Connection) (k : TerritoryId) :
    (join index adjacency c)[k]? = adjacency[k]?.map fun s =>
      (newNeighbor (b.ends c.origin c.target) k).elim s (s.insert ·) := by
  rw [join, hindex, hindex, ends]
  cases b.locate c.origin with
  | none => exact (Option.map_id' ..).symm
  | some i =>
      cases b.locate c.target with
      | none => exact (Option.map_id' ..).symm
      | some j =>
          by_cases hij : i = j
          · simp only [Option.bind_eq_bind, Option.bind_some, Option.pure_def, newNeighbor, hij,
              if_true]
            exact (Option.map_id' ..).symm
          · simp only [Option.bind_eq_bind, Option.bind_some, Option.pure_def, newNeighbor, hij,
              if_false, List.getElem?_modify, Option.map_eq_map, Option.map_map]
            congr 1
            funext s
            by_cases hik : i = k
            · subst hik
              simp [Ne.symm hij]
            · by_cases hjk : j = k
              · subst hjk
                simp [hij, Ne.symm hij]
              · simp [hik, hjk, Ne.symm hik, Ne.symm hjk]

theorem getElem?_foldl_join (hindex : ∀ name, index[name]? = b.locate name)
    (connections : List Connection) (adjacency : List (Std.ExtTreeSet TerritoryId))
    (k : TerritoryId) :
    (connections.foldl (join index) adjacency)[k]? =
      adjacency[k]?.map (b.joinAll connections k) := by
  induction connections generalizing adjacency with
  | nil => exact (Option.map_id' ..).symm
  | cons c connections ih =>
      rw [List.foldl_cons, ih, getElem?_join hindex, Option.map_map]
      rfl

/-- The map as it is with the connections and the cities. -/
theorem furnish_eq_amend (connections : List Connection) (cities : List String) (b : Board) :
    (connections.foldl link b).withCities cities = b.amend fun k t =>
      { t with
        neighbors := b.joinAll connections k t.neighbors
        victoryCity := (cities.filterMap b.locate).contains k || t.victoryCity } := by
  have hlocate : (connections.foldl link b).locate = b.locate := by
    funext name
    rw [foldl_link_eq_amend]
    refine locate_amend ?_ name
    exact fun _ _ => rfl
  rw [withCities_eq_amend, hlocate, foldl_link_eq_amend, amend_amend]

/-- The loader and the primitives make the same of a record. -/
theorem load_eq {r : MapRecord} (l : MapRecord.Listing r) : load l = ofRecord r := by
  let start : Board := ⟨bare r, startingOwners r⟩
  have hindex (name : String) : (MapRecord.index r.territories)[name]? = start.locate name := by
    have hnames : (bare r).map Territory.name = r.territories := (bare_sound r).names_eq
    rw [← hnames]
    exact getElem?_index (bare r) name
  have hgarrison := foldlM_garrison hindex r.startingUnits
  rw [load, ofRecord]
  change (r.startingUnits.foldlM (garrison _) start.territories >>= _) = _
  rw [hgarrison]
  cases hunits : r.startingUnits.foldlM placeStart start with
  | error e => rfl
  | ok b =>
      have hground : start.SameGround b :=
        foldlM_keeps (fun c u d hc hd => hc.trans (sameGround_placeStart hd)) (.refl start) hunits
      have howners : b.owners = startingOwners r :=
        foldlM_keeps (P := fun b => b.owners = startingOwners r)
          (fun c u d hc hd => (owners_placeStart hd).trans hc) rfl hunits
      have hlocate : b.locate = start.locate := funext hground.locate_eq
      refine congrArg Except.ok (Eq.trans ?_ (furnish_eq_amend _ _ b).symm)
      rw [amend, Board.mk.injEq, enlist_eq, howners]
      refine ⟨List.ext_getElem? fun k => ?_, rfl⟩
      rw [List.getElem?_mapIdx, List.getElem?_mapIdx]
      cases ht : b.territories[k]? with
      | none => rfl
      | some t =>
          -- until now the map is bare: no neighbours and no victory cities
          have hsite := congrArg (·[k]?) hground
          simp only [List.getElem?_map, ht, start, bare, Option.map_map, Option.map_some] at hsite
          obtain ⟨name, hname, hsite⟩ := Option.map_eq_some_iff.1 hsite.symm
          have hbare := (Prod.mk.inj hsite).2
          have hneighbors : t.neighbors = ∅ := (Prod.mk.inj hbare).1.symm
          have hcity : t.victoryCity = false := (Prod.mk.inj hbare).2.symm
          have hjoin : b.joinAll r.connections k = start.joinAll r.connections k := by
            funext neighbors
            simp only [joinAll, ends_congr hground.locate_eq]
          simp only [Option.map_some, getElem?_foldl_join hindex, List.getElem?_map, hname,
            Option.getD_some, hindex, hneighbors, hcity, hjoin, hlocate, Bool.or_false]

end Board

end Warboard
