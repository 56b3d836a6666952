import Warboard.Proofs.Board.Start
import Warboard.Proofs.Game.Ground

namespace Warboard

open Checked

section Folds

variable {α β : Type} {step : β → α → β}

/-- A step is lost in a loop that takes it too, if steps can be taken in any order and a second one
of a kind changes nothing. -/
theorem foldl_absorb (hcomm : ∀ b x y, step (step b x) y = step (step b y) x)
    (hidem : ∀ b x, step (step b x) x = step b x) {x y : α} (hxy : ∀ b, step b x = step b y)
    {ys : List α} (hy : y ∈ ys) (b : β) : step (ys.foldl step b) x = ys.foldl step b := by
  obtain ⟨before, after, rfl⟩ := List.append_of_mem hy
  rw [(List.perm_middle (a := y)).foldl_eq' fun x _ y _ b => hcomm b x y, List.foldl_cons]
  generalize before ++ after = others
  have hout (b : β) : step (others.foldl step b) y = others.foldl step (step b y) := by
    induction others generalizing b with
    | nil => rfl
    | cons z others ih => rw [List.foldl_cons, List.foldl_cons, ih, hcomm]
  rw [hxy, hout, hidem]

/-- Such a loop depends on the steps it takes only, not on how often and when it takes them. -/
theorem foldl_eq_of_steps (hcomm : ∀ b x y, step (step b x) y = step (step b y) x)
    (hidem : ∀ b x, step (step b x) x = step b x) {xs ys : List α}
    (hxs : ∀ x ∈ xs, ∃ y ∈ ys, ∀ b, step b x = step b y)
    (hys : ∀ y ∈ ys, ∃ x ∈ xs, ∀ b, step b y = step b x) (b : β) :
    xs.foldl step b = ys.foldl step b := by
  have hlost {xs ys : List α} (hxs : ∀ x ∈ xs, ∃ y ∈ ys, ∀ b, step b x = step b y) :
      xs.foldl step (ys.foldl step b) = ys.foldl step b := by
    refine List.foldlRecOn (motive := fun c => c = ys.foldl step b) xs step rfl ?_
    intro c hc x hx
    obtain ⟨y, hy, hxy⟩ := hxs x hx
    rw [hc, foldl_absorb hcomm hidem hxy hy]
  calc xs.foldl step b
    _ = (xs ++ ys).foldl step b := by rw [List.foldl_append, hlost hys]
    _ = (ys ++ xs).foldl step b :=
        List.perm_append_comm.foldl_eq' (fun x _ y _ b => hcomm b x y) b
    _ = ys.foldl step b := by rw [List.foldl_append, hlost hxs]

end Folds

namespace Board

variable {b b' : Board} {i : TerritoryId} {f g : TerritoryId → Territory → Territory}

/-- Changes each territory as its number says. -/
def amend (b : Board) (f : TerritoryId → Territory → Territory) : Board :=
  { b with territories := b.territories.mapIdx f }

theorem getElem?_amend (b : Board) (f : TerritoryId → Territory → Territory) (i : TerritoryId) :
    (b.amend f).territories[i]? = b.territories[i]?.map (f i) :=
  List.getElem?_mapIdx

theorem amend_amend (b : Board) (f g : TerritoryId → Territory → Territory) :
    (b.amend f).amend g = b.amend fun i t => g i (f i t) := by
  rw [amend, amend, amend, List.mapIdx_mapIdx]
  rfl

theorem amend_comm (h : ∀ i t, g i (f i t) = f i (g i t)) :
    (b.amend f).amend g = (b.amend g).amend f := by
  simp only [amend_amend, h]

theorem amend_id (b : Board) : (b.amend fun _ t => t) = b := by
  rw [Board.mk.injEq]
  refine ⟨List.ext_getElem? fun i => ?_, rfl⟩
  rw [getElem?_amend, Option.map_id']

theorem updateTerritory_eq_amend (b : Board) (i : TerritoryId) (f : Territory → Territory) :
    b.updateTerritory i f = b.amend fun j t => if i = j then f t else t := by
  rw [Board.mk.injEq]
  refine ⟨List.ext_getElem? fun j => ?_, rfl⟩
  rw [getElem?_updateTerritory, getElem?_amend]

theorem locate_amend (hname : ∀ i t, (f i t).name = t.name) (name : String) :
    (b.amend f).locate name = b.locate name := by
  refine locateIn_congr (List.ext_getElem? fun i => ?_)
  rw [List.getElem?_map, List.getElem?_map, getElem?_amend, Option.map_map]
  congr 1
  funext t
  exact hname i t

theorem addUnits_amend {key : UnitKey} {n : UInt32} (hunits : ∀ i t, (f i t).units = t.units)
    (hput : ∀ i t units, f i { t with units := units } = { f i t with units := units }) :
    (b.amend f).addUnits i key n = (b.addUnits i key n).map (amend · f) := by
  rw [addUnits, addUnits, getElem?_amend]
  cases b.territories[i]? with
  | none => rfl
  | some t =>
      simp only [Option.map_some, hunits]
      cases Stack.addTo key n t.units with
      | error e => rfl
      | ok units =>
          refine congrArg Except.ok ?_
          rw [updateTerritory_eq_amend, updateTerritory_eq_amend]
          apply amend_comm
          intro j t
          split
          · exact (hput j t units).symm
          · rfl

/-- The board with the connection, if there can be one. -/
def link (b : Board) (c : Connection) : Board := (b.connect c.origin c.target).getD b

/-- The territory that the connection with these ends gives the territory as a neighbour. -/
def newNeighbor (ends : Option (TerritoryId × TerritoryId)) (k : TerritoryId) :
    Option TerritoryId :=
  ends.bind fun (i, j) =>
    if i = j then none else if k = i then some j else if k = j then some i else none

theorem newNeighbor_swap (i j k : TerritoryId) :
    newNeighbor (some (i, j)) k = newNeighbor (some (j, i)) k := by
  simp only [newNeighbor, Option.bind_some]
  by_cases hij : i = j
  · rw [if_pos hij, if_pos hij.symm]
  · rw [if_neg hij, if_neg (Ne.symm hij)]
    by_cases hk : k = i
    · rw [if_pos hk, if_neg (hk ▸ hij), if_pos hk]
    · rw [if_neg hk, if_neg hk]

def adjoin (neighbor : Option TerritoryId) (t : Territory) : Territory :=
  { t with neighbors := neighbor.elim t.neighbors fun j => t.neighbors.insert j }

theorem adjoin_comm (m n : Option TerritoryId) (t : Territory) :
    adjoin m (adjoin n t) = adjoin n (adjoin m t) := by
  cases m with
  | none => rfl
  | some i =>
      cases n with
      | none => rfl
      | some j =>
          simp only [adjoin, Option.elim_some, Territory.mk.injEq, true_and]
          ext k
          simp only [Std.ExtTreeSet.mem_insert]
          exact or_left_comm

theorem adjoin_self (n : Option TerritoryId) (t : Territory) :
    adjoin n (adjoin n t) = adjoin n t := by
  cases n with
  | none => rfl
  | some j =>
      simp only [adjoin, Option.elim_some, Territory.mk.injEq, true_and]
      ext k
      simp only [Std.ExtTreeSet.mem_insert]
      exact or_self_left

theorem link_eq_amend (b : Board) (c : Connection) :
    b.link c = b.amend fun k => adjoin (newNeighbor (b.ends c.origin c.target) k) := by
  rw [link, connect]
  cases b.ends c.origin c.target with
  | none => exact (amend_id b).symm
  | some ends =>
      obtain ⟨i, j⟩ := ends
      by_cases hij : i = j
      · simp only [Option.bind_eq_bind, Option.bind_some, hij, if_true, newNeighbor]
        exact (amend_id b).symm
      · simp only [Option.bind_eq_bind, Option.bind_some, hij, if_false, Option.pure_def,
          Option.getD_some, relink, updateTerritory_eq_amend, amend_amend, newNeighbor]
        congr 1
        funext k t
        by_cases hik : i = k
        · subst hik
          simp [Ne.symm hij, adjoin]
        · by_cases hjk : j = k
          · subst hjk
            simp [hij, Ne.symm hij, adjoin]
          · simp [hik, hjk, Ne.symm hik, Ne.symm hjk, adjoin]

def crown (city : Option TerritoryId) (i : TerritoryId) (t : Territory) : Territory :=
  { t with victoryCity := city = some i || t.victoryCity }

theorem addVictoryCity_eq_amend (b : Board) (name : String) :
    b.addVictoryCity name = b.amend (crown (b.locate name)) := by
  rw [addVictoryCity]
  cases b.locate name with
  | none => exact (amend_id b).symm
  | some i =>
      refine (updateTerritory_eq_amend b i _).trans ?_
      congr 1
      funext k t
      by_cases hk : i = k <;> simp [crown, hk]

theorem locate_link (b : Board) (c : Connection) (name : String) :
    (b.link c).locate name = b.locate name := by
  rw [link_eq_amend]
  refine locate_amend ?_ name
  exact fun _ _ => rfl

theorem locate_addVictoryCity (b : Board) (city name : String) :
    (b.addVictoryCity city).locate name = b.locate name := by
  rw [addVictoryCity_eq_amend]
  refine locate_amend ?_ name
  exact fun _ _ => rfl

theorem ends_congr (h : ∀ name, b'.locate name = b.locate name) (origin target : String) :
    b'.ends origin target = b.ends origin target := by
  rw [ends, ends, h, h]

theorem link_comm (b : Board) (c d : Connection) : (b.link c).link d = (b.link d).link c := by
  rw [link_eq_amend (b.link c), link_eq_amend (b.link d), ends_congr (b.locate_link c),
    ends_congr (b.locate_link d), link_eq_amend, link_eq_amend]
  exact amend_comm fun _ _ => adjoin_comm ..

theorem link_link_self (b : Board) (c : Connection) : (b.link c).link c = b.link c := by
  rw [link_eq_amend (b.link c), ends_congr (b.locate_link c), link_eq_amend, amend_amend]
  simp only [adjoin_self]

theorem link_swap (b : Board) (origin target : String) :
    b.link ⟨origin, target⟩ = b.link ⟨target, origin⟩ := by
  rw [link_eq_amend, link_eq_amend]
  congr 1
  funext k
  rw [ends, ends]
  cases b.locate origin with
  | none => cases b.locate target <;> rfl
  | some i =>
      cases b.locate target with
      | none => rfl
      | some j => exact congrArg adjoin (newNeighbor_swap i j k)

theorem addVictoryCity_comm (b : Board) (city city' : String) :
    (b.addVictoryCity city).addVictoryCity city' =
      (b.addVictoryCity city').addVictoryCity city := by
  rw [addVictoryCity_eq_amend (b.addVictoryCity city),
    addVictoryCity_eq_amend (b.addVictoryCity city'), locate_addVictoryCity,
    locate_addVictoryCity, addVictoryCity_eq_amend, addVictoryCity_eq_amend]
  apply amend_comm
  intro i t
  simp only [crown, Bool.or_left_comm]

theorem addVictoryCity_self (b : Board) (city : String) :
    (b.addVictoryCity city).addVictoryCity city = b.addVictoryCity city := by
  rw [addVictoryCity_eq_amend (b.addVictoryCity city), locate_addVictoryCity,
    addVictoryCity_eq_amend, amend_amend]
  congr 1
  funext i t
  simp only [crown, Bool.or_self_left]

theorem addVictoryCity_link (b : Board) (city : String) (c : Connection) :
    (b.addVictoryCity city).link c = (b.link c).addVictoryCity city := by
  rw [link_eq_amend (b.addVictoryCity city), ends_congr (b.locate_addVictoryCity city),
    addVictoryCity_eq_amend (b.link c), locate_link, addVictoryCity_eq_amend, link_eq_amend]
  exact amend_comm fun _ _ => rfl

theorem sameGround_placeStart {u : StartingUnit} (h : b.placeStart u = .ok b') :
    SameGround b b' := by
  rw [placeStart] at h
  split at h
  · exact sameGround_addUnits h
  · cases h
    exact .refl b

theorem owners_placeStart {u : StartingUnit} (h : b.placeStart u = .ok b') :
    b'.owners = b.owners := by
  rw [placeStart] at h
  split at h
  · exact owners_addUnits h
  · cases h
    rfl

theorem placeStart_addVictoryCity (b : Board) (city : String) (u : StartingUnit) :
    (b.addVictoryCity city).placeStart u = (b.placeStart u).map (·.addVictoryCity city) := by
  rw [placeStart, placeStart, locate_addVictoryCity]
  cases b.locate u.territory with
  | none => rfl
  | some i =>
      dsimp only
      rw [addVictoryCity_eq_amend, addUnits_amend]
      · cases h : b.addUnits i ⟨u.unit, u.owner⟩ u.quantity with
        | error e => rfl
        | ok b' =>
            have hcity : b'.addVictoryCity city = b'.amend (crown (b.locate city)) := by
              rw [addVictoryCity_eq_amend, (sameGround_addUnits h).locate_eq]
            exact congrArg Except.ok hcity.symm
      · exact fun _ _ => rfl
      · exact fun _ _ _ => rfl

/-- The board with its victory cities. -/
def withCities (b : Board) (cities : List String) : Board := cities.foldl addVictoryCity b

theorem withCities_eq_amend (cities : List String) (b : Board) :
    b.withCities cities = b.amend fun k t =>
      { t with victoryCity := (cities.filterMap b.locate).contains k || t.victoryCity } := by
  induction cities generalizing b with
  | nil => exact (amend_id b).symm
  | cons city cities ih =>
      have hlocate : (b.addVictoryCity city).locate = b.locate :=
        funext (b.locate_addVictoryCity city)
      change (b.addVictoryCity city).withCities cities = _
      rw [ih, hlocate, addVictoryCity_eq_amend, amend_amend]
      congr 1
      funext k t
      rw [List.filterMap_cons]
      cases b.locate city with
      | none => rfl
      | some i =>
          rw [List.contains_cons, crown, Territory.mk.injEq]
          refine ⟨rfl, rfl, rfl, rfl, ?_, rfl⟩
          rw [Bool.or_left_comm, ← Bool.or_assoc]
          by_cases hk : i = k
          · simp [hk]
          · have hki : (k == i) = false := beq_eq_false_iff_ne.2 (Ne.symm hk)
            simp [hk, hki]

theorem placeStart_withCities (b : Board) (cities : List String) (u : StartingUnit) :
    (b.withCities cities).placeStart u = (b.placeStart u).map (·.withCities cities) := by
  induction cities generalizing b with
  | nil =>
      change b.placeStart u = (b.placeStart u).map id
      cases b.placeStart u <;> rfl
  | cons city cities ih =>
      refine (ih (b.addVictoryCity city)).trans ?_
      rw [placeStart_addVictoryCity]
      cases b.placeStart u <;> rfl

theorem link_withCities (b : Board) (cities : List String) (c : Connection) :
    (b.withCities cities).link c = (b.link c).withCities cities :=
  (List.foldl_hom (link · c) fun b city => (addVictoryCity_link b city c).symm).symm

def withOwners (b : Board) (owners : Table Owner) : Board := { b with owners := owners }

theorem addUnits_withOwners (b : Board) (owners : Table Owner) (key : UnitKey) (n : UInt32) :
    (b.withOwners owners).addUnits i key n = (b.addUnits i key n).map (·.withOwners owners) := by
  simp only [addUnits, withOwners]
  cases b.territories[i]? with
  | none => rfl
  | some t =>
      dsimp only
      cases Stack.addTo key n t.units <;> rfl

theorem placeStart_withOwners (b : Board) (owners : Table Owner) (u : StartingUnit) :
    (b.withOwners owners).placeStart u = (b.placeStart u).map (·.withOwners owners) := by
  have hlocate : (b.withOwners owners).locate u.territory = b.locate u.territory := rfl
  rw [placeStart, placeStart, hlocate]
  cases b.locate u.territory with
  | none => rfl
  | some i => exact b.addUnits_withOwners owners _ _

theorem link_withOwners (b : Board) (owners : Table Owner) (c : Connection) :
    (b.withOwners owners).link c = (b.link c).withOwners owners := by
  rw [link_eq_amend, link_eq_amend]
  rfl

theorem withCities_withOwners (b : Board) (owners : Table Owner) (cities : List String) :
    (b.withOwners owners).withCities cities = (b.withCities cities).withOwners owners := by
  refine List.foldl_hom (withOwners · owners) fun b city => ?_
  rw [addVictoryCity_eq_amend, addVictoryCity_eq_amend]
  rfl

end Board

end Warboard
