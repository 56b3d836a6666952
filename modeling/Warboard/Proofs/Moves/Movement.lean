import Warboard.Map.Sample
import Warboard.Moves.Movement
import Warboard.Proofs.Board.Invariant
import Warboard.Proofs.Reach.Graph

namespace Warboard

/-- The connections between the territories. -/
def Board.graph (b : Board) : SimpleGraph TerritoryId := .fromRel fun i j => j ∈ b.neighborsOf i

theorem Board.Sound.graph_adj {names : List String} {b : Board} (h : b.Sound names)
    (i j : TerritoryId) : b.graph.Adj i j ↔ j ∈ b.neighborsOf i := by
  have hsymm := h.neighbors_symm j i
  have hirrefl := h.neighbors_irrefl i
  rw [graph, SimpleGraph.fromRel_adj]
  constructor
  · rintro ⟨-, hj | hi⟩
    · exact hj
    · exact hsymm hi
  · intro hj
    refine ⟨?_, Or.inl hj⟩
    rintro rfl
    exact hirrefl hj

/-- The way of a stack to a territory. -/
structure Journey where
  origin : TerritoryId
  stack : Stack
  target : TerritoryId

namespace MovementMove

variable (w : World) (player : String)

/-- The player's stack stands in the territory and can move. -/
structure Mobile (i : TerritoryId) (s : Stack) : Prop where
  stands : ∃ t, w.board.territories[i]? = some t ∧ s ∈ t.units
  owner : s.key.owner = player
  quantity_pos : 0 < s.quantity
  not_factory : s.key.unit ≠ "factory"
  not_aaGun : s.key.unit ≠ "aaGun"
  movement_pos : 0 < w.catalog.movement s.key.unit

/-- The stack moves within its range to a territory that is not the player's, whatever is between. -/
structure Attacks (j : Journey) : Prop where
  mobile : Mobile w player j.origin j.stack
  target_lt : j.target < w.board.territories.length
  target_ne : j.target ≠ j.origin
  hostile : w.board.ownerOf j.target ≠ player
  dist_pos : 1 ≤ w.board.graph.dist j.origin j.target
  dist_le : w.board.graph.dist j.origin j.target ≤ (w.catalog.movement j.stack.key.unit).toNat

/-- A walk that only enters the player's territories. -/
def Friendly {i j : TerritoryId} (p : w.board.graph.Walk i j) : Prop :=
  ∀ k ∈ p.support.tail, w.board.ownerOf k = player

/-- The stack moves within its range to another territory and stays among the player's. -/
structure Repositions (j : Journey) : Prop where
  mobile : Mobile w player j.origin j.stack
  target_lt : j.target < w.board.territories.length
  target_ne : j.target ≠ j.origin
  walk : ∃ p : w.board.graph.Walk j.origin j.target,
    p.length ≤ (w.catalog.movement j.stack.key.unit).toNat ∧ Friendly w player p

/-- The move orders the journey. -/
structure Orders (phase : Phase) (j : Journey) (m : MovementMove) : Prop where
  delegate_eq : m.delegate = phase
  origin_eq : m.origin = w.board.nameOf j.origin
  target_eq : m.target = w.board.nameOf j.target
  unit_eq : m.unit = j.stack.key.unit
  quantity_eq : m.maxQuantity = j.stack.quantity
  owner_eq : m.targetOwner = w.board.ownerOf j.target

/-- What one move is made from. -/
structure Trip where
  index : TerritoryId
  origin : Territory
  stack : Stack
  reached : Reached TerritoryId

def Trip.journey (x : Trip) : Journey := ⟨x.index, x.stack, x.reached.node⟩

def Trip.move (phase : Phase) (x : Trip) : MovementMove :=
  ofReached w phase x.origin x.stack x.reached

def reach (policy : TerritoryId → Visit) (i : TerritoryId) (s : Stack) :
    List (Reached TerritoryId) :=
  if isMobile player s then
    Reach.explore w.board.neighborsOf policy i (w.catalog.movement s.key.unit).toNat
  else []

def trips (policy : TerritoryId → Visit) : List Trip :=
  w.board.territories.zipIdx.flatMap fun (t, i) =>
    t.units.flatMap fun s => (reach w player policy i s).map fun r => ⟨i, t, s, r⟩

theorem legal_eq_map_trips (phase : Phase) (policy : TerritoryId → Visit) :
    legal w player phase policy = (trips w player policy).map (Trip.move w phase) := by
  simp only [legal, trips, List.map_flatMap, List.map_map]
  apply List.flatMap_congr
  rintro ⟨t, i⟩ -
  apply List.flatMap_congr
  intro s _
  rw [ofStack, reach]
  split <;> rfl

variable {w player} {policy : TerritoryId → Visit}

theorem mem_trips {x : Trip} : x ∈ trips w player policy ↔
    w.board.territories[x.index]? = some x.origin ∧ x.stack ∈ x.origin.units ∧
      x.reached ∈ reach w player policy x.index x.stack := by
  obtain ⟨index, origin, stack, reached⟩ := x
  simp only [trips, List.mem_flatMap, List.mem_map, Prod.exists, List.mk_mem_zipIdx_iff_getElem?,
    Trip.mk.injEq]
  constructor
  · rintro ⟨t, i, ht, s, hs, r, hr, rfl, rfl, rfl, rfl⟩
    exact ⟨ht, hs, hr⟩
  · rintro ⟨ht, hs, hr⟩
    exact ⟨origin, index, ht, stack, hs, reached, hr, rfl, rfl, rfl, rfl⟩

theorem reach_nodup (i : TerritoryId) (s : Stack) :
    ((reach w player policy i s).map Reached.node).Nodup := by
  rw [reach]
  split
  · exact Reach.explore_nodup
  · exact List.nodup_nil

/-- No stack makes the same journey twice, and no two stacks are the same. -/
theorem journeys_nodup (h : ∀ t ∈ w.board.territories, (t.units.map Stack.key).Nodup) :
    ((trips w player policy).map Trip.journey).Nodup := by
  simp only [trips, List.map_flatMap, List.map_map]
  refine List.nodup_flatMap.2 ⟨?_, ?_⟩
  · rintro ⟨t, i⟩ ht
    have hunits := (h t (List.mem_of_getElem? (List.mk_mem_zipIdx_iff_getElem?.1 ht))).of_map
    refine List.nodup_flatMap.2 ⟨?_, ?_⟩
    · intro s _
      have hjourney : Trip.journey ∘ (fun r => ⟨i, t, s, r⟩) =
          (fun v => ⟨i, s, v⟩) ∘ Reached.node := rfl
      rw [hjourney, ← List.map_map]
      apply (reach_nodup i s).map
      intro u v huv
      exact (Journey.mk.inj huv).2.2
    · apply hunits.imp
      intro s s' hne j hj hj'
      obtain ⟨r, -, rfl⟩ := List.mem_map.1 hj
      obtain ⟨r', -, he⟩ := List.mem_map.1 hj'
      exact hne (Journey.mk.inj he).2.1.symm
  · have hindex : w.board.territories.zipIdx.Pairwise fun x y => x.2 ≠ y.2 := by
      rw [← List.pairwise_map, List.zipIdx_map_snd]
      exact List.nodup_range'
    apply hindex.imp
    rintro ⟨t, i⟩ ⟨t', i'⟩ hne j hj hj'
    obtain ⟨s, -, hj⟩ := List.mem_flatMap.1 hj
    obtain ⟨s', -, hj'⟩ := List.mem_flatMap.1 hj'
    obtain ⟨r, -, rfl⟩ := List.mem_map.1 hj
    obtain ⟨r', -, he⟩ := List.mem_map.1 hj'
    exact hne (Journey.mk.inj he).1.symm

theorem isMobile_iff {s : Stack} : isMobile player s ↔
    s.key.owner = player ∧ 0 < s.quantity ∧ s.key.unit ≠ "factory" ∧ s.key.unit ≠ "aaGun" := by
  simp [isMobile, immobile, and_assoc]

theorem mem_journeys {j : Journey} : j ∈ (trips w player policy).map Trip.journey ↔
    (∃ t, w.board.territories[j.origin]? = some t ∧ j.stack ∈ t.units) ∧
      isMobile player j.stack ∧ j.target ≠ j.origin ∧ (policy j.target).record ∧
      ∃ k ≤ (w.catalog.movement j.stack.key.unit).toNat,
        Reach.Walk w.board.neighborsOf policy j.origin k j.target := by
  obtain ⟨i, s, v⟩ := j
  rw [← Reach.mem_explore_iff, List.mem_map]
  constructor
  · rintro ⟨⟨i, t, s, r⟩, hx, he⟩
    cases he
    obtain ⟨ht, hs, hr⟩ := mem_trips.1 hx
    rw [reach] at hr
    split at hr
    · rename_i hmobile
      exact ⟨⟨t, ht, hs⟩, hmobile, List.mem_map_of_mem hr⟩
    · cases hr
  · rintro ⟨⟨t, ht, hs⟩, hmobile, hv⟩
    obtain ⟨r, hr, rfl⟩ := List.mem_map.1 hv
    refine ⟨⟨i, t, s, r⟩, mem_trips.2 ⟨ht, hs, ?_⟩, rfl⟩
    rw [reach, if_pos hmobile]
    exact hr

variable {names : List String} {i v : TerritoryId} {k : Nat}

theorem lt_length_of_walk (h : w.board.Sound names)
    (hw : Reach.Walk w.board.neighborsOf policy i k v) : v < w.board.territories.length := by
  cases hw with
  | edge hv => exact h.lt_length hv
  | snoc _ _ hv => exact h.lt_length hv

theorem attack_expand (i : TerritoryId) : (attack w player i).expand := by
  rw [attack]
  split <;> rfl

theorem attack_record {i : TerritoryId} :
    (attack w player i).record ↔ w.board.ownerOf i ≠ player := by
  rw [attack]
  split
  · simp_all [Visit.passThrough]
  · simp_all [Visit.recordAndExpand]

theorem reposition_expand {i : TerritoryId} :
    (reposition w player i).expand ↔ w.board.ownerOf i = player := by
  rw [reposition]
  split
  · simp_all [Visit.recordAndExpand]
  · simp_all [Visit.skip]

theorem reposition_record {i : TerritoryId} :
    (reposition w player i).record ↔ w.board.ownerOf i = player := by
  rw [reposition]
  split
  · simp_all [Visit.recordAndExpand]
  · simp_all [Visit.skip]

/-- Every walk of the map can be an attack. -/
theorem attack_walk_iff (h : w.board.Sound names) :
    Reach.Walk w.board.neighborsOf (attack w player) i k v ↔
      0 < k ∧ ∃ p : w.board.graph.Walk i v, p.length = k := by
  have hwalk := Reach.walk_and_expand_iff h.graph_adj (attack w player) i k v
  simpa only [attack_expand, and_true, implies_true] using hwalk

theorem reposition_walk_iff (h : w.board.Sound names) :
    Reach.Walk w.board.neighborsOf (reposition w player) i k v ∧ w.board.ownerOf v = player ↔
      0 < k ∧ ∃ p : w.board.graph.Walk i v, p.length = k ∧ Friendly w player p := by
  have hwalk := Reach.walk_and_expand_iff h.graph_adj (reposition w player) i k v
  simpa only [reposition_expand, Friendly] using hwalk

/-- Mobile stacks are those that a search is made for and can get somewhere. -/
theorem mobile_iff {s : Stack} (h : 1 ≤ (w.catalog.movement s.key.unit).toNat) :
    Mobile w player i s ↔
      (∃ t, w.board.territories[i]? = some t ∧ s ∈ t.units) ∧ isMobile player s := by
  rw [isMobile_iff]
  constructor
  · rintro ⟨hstands, howner, hquantity, hfactory, hgun, -⟩
    exact ⟨hstands, howner, hquantity, hfactory, hgun⟩
  · rintro ⟨hstands, howner, hquantity, hfactory, hgun⟩
    exact ⟨hstands, howner, hquantity, hfactory, hgun, UInt32.lt_iff_toNat_lt.2 h⟩

theorem mem_journeys_attack (h : w.board.Sound names) {j : Journey} :
    j ∈ (trips w player (attack w player)).map Trip.journey ↔ Attacks w player j := by
  rw [mem_journeys]
  constructor
  · rintro ⟨hstands, hmobile, hne, hrecord, k, hk, hw⟩
    obtain ⟨hpos, p, rfl⟩ := (attack_walk_iff h).1 hw
    exact {
      mobile := (mobile_iff (Nat.le_trans hpos hk)).2 ⟨hstands, hmobile⟩
      target_lt := lt_length_of_walk h hw
      target_ne := hne
      hostile := attack_record.1 hrecord
      dist_pos := p.reachable.pos_dist_of_ne hne.symm
      dist_le := (SimpleGraph.dist_le p).trans hk }
  · intro hj
    have hrange := hj.dist_pos.trans hj.dist_le
    obtain ⟨hstands, hmobile⟩ := (mobile_iff hrange).1 hj.mobile
    have hdist := Nat.ne_of_gt hj.dist_pos
    exact ⟨hstands, hmobile, hj.target_ne, attack_record.2 hj.hostile, _, hj.dist_le,
      (attack_walk_iff h).2 ⟨hj.dist_pos, SimpleGraph.exists_walk_of_dist_ne_zero hdist⟩⟩

theorem mem_journeys_reposition (h : w.board.Sound names) {j : Journey} :
    j ∈ (trips w player (reposition w player)).map Trip.journey ↔ Repositions w player j := by
  rw [mem_journeys]
  constructor
  · rintro ⟨hstands, hmobile, hne, hrecord, k, hk, hw⟩
    obtain ⟨hpos, p, rfl, hp⟩ := (reposition_walk_iff h).1 ⟨hw, reposition_record.1 hrecord⟩
    exact {
      mobile := (mobile_iff (Nat.le_trans hpos hk)).2 ⟨hstands, hmobile⟩
      target_lt := lt_length_of_walk h hw
      target_ne := hne
      walk := ⟨p, hk, hp⟩ }
  · intro hj
    obtain ⟨p, hk, hp⟩ := hj.walk
    have hpos : 0 < p.length := by
      apply Nat.pos_of_ne_zero
      intro hzero
      exact hj.target_ne (SimpleGraph.Walk.eq_of_length_eq_zero hzero).symm
    obtain ⟨hw, howner⟩ := (reposition_walk_iff h).2 ⟨hpos, p, rfl, hp⟩
    obtain ⟨hstands, hmobile⟩ := (mobile_iff (Nat.le_trans hpos hk)).1 hj.mobile
    exact ⟨hstands, hmobile, hj.target_ne, reposition_record.2 howner, p.length, hk, hw⟩

theorem isLeast_steps {x : Trip} (hx : x ∈ trips w player policy) :
    IsLeast {k | Reach.Walk w.board.neighborsOf policy x.index k x.reached.node}
      x.reached.steps := by
  obtain ⟨-, -, hr⟩ := mem_trips.1 hx
  rw [reach] at hr
  split at hr
  · exact Reach.isLeast_steps hr
  · cases hr

theorem steps_attack (h : w.board.Sound names) {x : Trip}
    (hx : x ∈ trips w player (attack w player)) :
    x.reached.steps = w.board.graph.dist x.index x.reached.node := by
  obtain ⟨hw, hleast⟩ := isLeast_steps hx
  obtain ⟨-, p, hp⟩ := (attack_walk_iff h).1 hw
  have hj : Attacks w player x.journey := (mem_journeys_attack h).1 (List.mem_map_of_mem hx)
  apply Nat.le_antisymm
  · apply hleast
    have hdist := Nat.ne_of_gt hj.dist_pos
    exact (attack_walk_iff h).2 ⟨hj.dist_pos, SimpleGraph.exists_walk_of_dist_ne_zero hdist⟩
  · rw [← hp]
    exact SimpleGraph.dist_le p

theorem steps_reposition (h : w.board.Sound names) {x : Trip}
    (hx : x ∈ trips w player (reposition w player)) :
    IsLeast {k | ∃ p : w.board.graph.Walk x.index x.reached.node,
      p.length = k ∧ Friendly w player p} x.reached.steps := by
  obtain ⟨hw, hleast⟩ := isLeast_steps hx
  have hj : Repositions w player x.journey :=
    (mem_journeys_reposition h).1 (List.mem_map_of_mem hx)
  obtain ⟨-, -, -, hrecord, -⟩ := mem_journeys.1 (List.mem_map_of_mem hx)
  constructor
  · exact ((reposition_walk_iff h).1 ⟨hw, reposition_record.1 hrecord⟩).2
  · rintro k ⟨p, rfl, hp⟩
    have hpos : 0 < p.length := by
      apply Nat.pos_of_ne_zero
      intro hzero
      exact hj.target_ne (SimpleGraph.Walk.eq_of_length_eq_zero hzero).symm
    exact hleast ((reposition_walk_iff h).2 ⟨hpos, p, rfl, hp⟩).1

theorem orders_move (phase : Phase) {x : Trip} (hx : x ∈ trips w player policy) :
    Orders w phase x.journey (x.move w phase) := by
  refine ⟨rfl, ?_, rfl, rfl, rfl, rfl⟩
  rw [Trip.journey, Board.nameOf, (mem_trips.1 hx).1]
  rfl

theorem forall₂_trips {R : Journey → MovementMove → Prop} {phase : Phase}
    (hR : ∀ x ∈ trips w player policy, R x.journey (x.move w phase)) :
    List.Forall₂ R ((trips w player policy).map Trip.journey) (legal w player phase policy) := by
  rw [legal_eq_map_trips, List.forall₂_map_left_iff, List.forall₂_map_right_iff,
    List.forall₂_same]
  exact hR

/-- The moves of a player are exactly the journeys that his stacks can make on the map as it is now,
each once: attacks as far as the range goes over land of any owner, and repositionings as far as it
goes over his own. -/
theorem moves_reach {r : MapRecord} {ops : List World.Operation} {w : World}
    (h : World.after r ops = .ok w) (player : String) :
    (∃ journeys : List Journey, journeys.Nodup ∧ (∀ j, j ∈ journeys ↔ Attacks w player j) ∧
      List.Forall₂ (fun j m => Orders w .combat j m ∧
        m.steps = w.board.graph.dist j.origin j.target) journeys (combat w player)) ∧
    ∃ journeys : List Journey, journeys.Nodup ∧ (∀ j, j ∈ journeys ↔ Repositions w player j) ∧
      List.Forall₂ (fun j m => Orders w .noncombat j m ∧
        IsLeast {k | ∃ p : w.board.graph.Walk j.origin j.target,
          p.length = k ∧ Friendly w player p} m.steps) journeys (noncombat w player) := by
  have hsound := World.after_sound h
  refine ⟨⟨_, journeys_nodup hsound.keys_nodup, fun j => mem_journeys_attack hsound, ?_⟩,
    ⟨_, journeys_nodup hsound.keys_nodup, fun j => mem_journeys_reposition hsound, ?_⟩⟩
  · exact forall₂_trips fun x hx => ⟨orders_move .combat hx, steps_attack hsound hx⟩
  · exact forall₂_trips fun x hx => ⟨orders_move .noncombat hx, steps_reposition hsound hx⟩

/-- Ukraine falls, and the infantry of Moscow cannot get there any more. -/
def advance : List World.Operation :=
  [.onBoard (.setOwner "Ukraine" "Russians"), .onBoard (.disconnect "Ukraine" "Moscow"),
    .onBoard (.addUnits 2 ⟨"armour", "Russians"⟩ 1)]

/-- Both armours can attack Poland and one of them also Berlin. -/
theorem moves_reach_advance : ∃ w, World.after .sample advance = .ok w ∧
    ∃ journeys : List Journey, journeys.Nodup ∧ journeys.length = 3 ∧
      ∀ j, j ∈ journeys ↔ Attacks w "Russians" j := by
  have hthree : ((World.after .sample advance).map fun w =>
      (combat w "Russians").length).toOption = some 3 := by decide +kernel
  cases h : World.after .sample advance with
  | error e => rw [h] at hthree; cases hthree
  | ok w =>
      rw [h] at hthree
      obtain ⟨⟨journeys, hnodup, hmem, hmoves⟩, -⟩ := moves_reach h "Russians"
      refine ⟨w, rfl, journeys, hnodup, ?_, hmem⟩
      rw [hmoves.length_eq]
      exact Option.some.inj hthree

end MovementMove

end Warboard
