import Warboard.Moves.Legal
import Warboard.Proofs.Board.Effect
import Warboard.Proofs.Moves.Listing
import Warboard.Proofs.Moves.Movement

namespace Warboard

namespace Placement

variable {factories : List String} {pool : List (String × UInt32)} {list : List Placement}

/-- An assignment takes units from the pool in its order, all of a type, to factories. -/
theorem of_mem_assignments (h : list ∈ assignments factories pool) :
    (list.map Placement.unit).Sublist (pool.map Prod.fst) ∧
      ∀ p ∈ list, (p.unit, p.quantity) ∈ pool ∧ p.target ∈ factories := by
  induction pool generalizing list with
  | nil =>
      obtain rfl := List.mem_singleton.1 h
      exact ⟨.slnil, fun p hp => absurd hp List.not_mem_nil⟩
  | cons entry pool ih =>
      obtain ⟨unit, n⟩ := entry
      rcases List.mem_append.1 h with h | h
      · obtain ⟨target, htarget, h⟩ := List.mem_flatMap.1 h
        obtain ⟨rest, hrest, rfl⟩ := List.mem_map.1 h
        obtain ⟨hunits, hall⟩ := ih hrest
        refine ⟨hunits.cons_cons unit, List.forall_mem_cons.2 ⟨⟨?_, htarget⟩, fun p hp => ?_⟩⟩
        · exact List.mem_cons_self
        · exact ⟨List.mem_cons_of_mem _ (hall p hp).1, (hall p hp).2⟩
      · obtain ⟨hunits, hall⟩ := ih h
        exact ⟨hunits.trans (List.sublist_cons_self _ _),
          fun p hp => ⟨List.mem_cons_of_mem _ (hall p hp).1, (hall p hp).2⟩⟩

def orders (p : Placement) : List Action :=
  List.replicate p.quantity.toNat ⟨.place, "", p.target, p.unit⟩

theorem filter_orders (p : Placement) (unit : String) :
    p.orders.filter (fun a => a.unit = unit) = if p.unit = unit then p.orders else [] := by
  split <;> simp_all [orders]

theorem filter_flatMap_orders_of_notMem {unit : String} (h : unit ∉ list.map Placement.unit) :
    (list.flatMap orders).filter (fun a => a.unit = unit) = [] := by
  induction list with
  | nil => rfl
  | cons p list ih =>
      rw [List.map_cons, List.mem_cons, not_or] at h
      rw [List.flatMap_cons, List.filter_append, filter_orders, if_neg (Ne.symm h.1), ih h.2]
      rfl

theorem filter_flatMap_orders_of_mem (hlist : (list.map Placement.unit).Nodup) {p : Placement}
    (hp : p ∈ list) : (list.flatMap orders).filter (fun a => a.unit = p.unit) = p.orders := by
  induction list with
  | nil => exact absurd hp List.not_mem_nil
  | cons q list ih =>
      rw [List.map_cons, List.nodup_cons] at hlist
      rw [List.flatMap_cons, List.filter_append, filter_orders]
      rcases List.mem_cons.1 hp with rfl | hp
      · rw [if_pos rfl, filter_flatMap_orders_of_notMem hlist.1, List.append_nil]
      · have hne : q.unit ≠ p.unit := fun he =>
          hlist.1 (he ▸ List.mem_map_of_mem hp)
        rw [if_neg hne, ih hlist.2 hp, List.nil_append]

end Placement

/-- Of each type that waits, all units go to one of the player's factories, or none; other units are
not spoken of. -/
structure World.Places (w : World) (player : String) (orders : List Action) : Prop where
  whole : ∀ unit : String, orders.filter (fun a => a.unit = unit) = [] ∨
    ∃ t ∈ w.board.territories, t.hasFactory player = true ∧
      orders.filter (fun a => a.unit = unit) =
        List.replicate (w.board.waiting player unit) ⟨.place, "", t.name, unit⟩
  waiting : ∀ a ∈ orders, 0 < w.board.waiting player a.unit

/-- The units are for sale, go to the player's first factory and can be paid for together. -/
structure World.Buys (w : World) (player : String) (orders : List Action) : Prop where
  target : ∃ t, w.board.territories.find? (fun t => t.hasFactory player) = some t ∧
    ∀ a ∈ orders, a.delegate = .purchase ∧ a.origin = "" ∧ a.target = t.name
  priced : ∀ a ∈ orders, ∃ cost, w.catalog.cost a.unit = some cost ∧ 0 < cost
  affordable : (orders.map fun a => w.catalog.price a.unit).sum ≤
    (w.board.balanceOf player).toInt

/-- One order for a journey of units that can make it. -/
def World.Moves (w : World) (phase : Phase) (permitted : Journey → Prop) (orders : List Action) :
    Prop :=
  ∃ j, permitted j ∧ orders =
    [⟨phase, w.board.nameOf j.origin, w.board.nameOf j.target, j.stack.key.unit⟩]

/-- May the player give the orders in the phase? It is always permitted to give none. -/
def World.Permits (w : World) (player : String) : Phase → List Action → Prop
  | .purchase, orders => orders = [] ∨ w.Buys player orders
  | .combat, orders => orders = [] ∨ w.Moves .combat (MovementMove.Attacks w player) orders
  | .noncombat, orders =>
    orders = [] ∨ w.Moves .noncombat (MovementMove.Repositions w player) orders
  | .place, orders => w.Places player orders

namespace World

variable {w : World} {player : String}

theorem Permits.pass (w : World) (player : String) (phase : Phase) : w.Permits player phase [] := by
  cases phase with
  | purchase | combat | noncombat => exact Or.inl rfl
  | place => exact ⟨fun unit => Or.inl rfl, fun a ha => absurd ha List.not_mem_nil⟩

theorem of_mem_placements {list : List Placement} (h : list ∈ Placement.legal w player) :
    (list.map Placement.unit).Nodup ∧ ∀ p ∈ list,
      p.quantity.toNat = w.board.waiting player p.unit ∧
        ∃ t ∈ w.board.territories, t.hasFactory player = true ∧ p.target = t.name := by
  obtain ⟨pool, hpool, hassigned⟩ : ∃ pool, pool.Sublist (w.board.unplacedOf player).toList ∧
      list ∈ Placement.assignments (w.board.factoryNames player) pool := by
    rw [Placement.legal] at h
    split at h
    · cases h
    · cases h
    · exact ⟨_, List.filter_sublist, h⟩
  obtain ⟨hunits, hall⟩ := Placement.of_mem_assignments hassigned
  have hkeys : ((w.board.unplacedOf player).toList.map Prod.fst).Nodup := by
    rw [Std.ExtTreeMap.map_fst_toList_eq_keys]
    exact Std.ExtTreeMap.nodup_keys
  refine ⟨(hkeys.sublist (hpool.map Prod.fst)).sublist hunits, fun p hp => ⟨?_, ?_⟩⟩
  · have hentry := Std.ExtTreeMap.mem_toList_iff_getElem?_eq_some.1 (hpool.subset (hall p hp).1)
    rw [Board.waiting, Std.ExtTreeMap.getD_eq_getD_getElem?, hentry]
    rfl
  · have htarget := (hall p hp).2
    rw [Board.factoryNames_eq, List.mem_map] at htarget
    obtain ⟨t, ht, htarget⟩ := htarget
    obtain ⟨ht, hfactory⟩ := List.mem_filter.1 ht
    exact ⟨t, ht, hfactory, htarget.symm⟩

theorem places_of_mem {list : List Placement} (h : list ∈ Placement.legal w player) :
    w.Places player (list.flatMap Placement.orders) := by
  obtain ⟨hunits, hall⟩ := of_mem_placements h
  constructor
  · intro unit
    by_cases hunit : unit ∈ list.map Placement.unit
    · obtain ⟨p, hp, rfl⟩ := List.mem_map.1 hunit
      obtain ⟨hquantity, t, ht, hfactory, htarget⟩ := hall p hp
      refine Or.inr ⟨t, ht, hfactory, ?_⟩
      rw [Placement.filter_flatMap_orders_of_mem hunits hp, Placement.orders, hquantity, htarget]
    · exact Or.inl (Placement.filter_flatMap_orders_of_notMem hunit)
  · intro a ha
    obtain ⟨p, hp, ha⟩ := List.mem_flatMap.1 ha
    obtain ⟨hne, rfl⟩ := List.mem_replicate.1 ha
    rw [← (hall p hp).1]
    exact Nat.pos_of_ne_zero hne

theorem actions_purchase {m : PurchaseMove} {target : String} {names : List String}
    (h : m.placeIn = target :: names) : (LegalMove.purchase m).actions =
      m.purchase.units.map fun unit => ⟨.purchase, "", target, unit⟩ := by
  rw [LegalMove.actions, Purchase.units, List.map_flatMap]
  simp only [h, List.map_replicate]

theorem buys_of_mem {moves : List PurchaseMove} (h : PurchaseMove.legal w player = .ok moves)
    {m : PurchaseMove} (hm : m ∈ moves) : w.Buys player (LegalMove.purchase m).actions := by
  have hfactory : w.board.factoryNames player ≠ [] := by
    intro hnone
    rw [PurchaseMove.legal_of_no_factory hnone] at h
    cases h
    exact List.not_mem_nil hm
  have hcount := PurchaseMove.countable_of_legal h hfactory
  rw [hcount.legal_eq hfactory, Except.ok.injEq] at h
  subst h
  obtain ⟨picks, hp, rfl⟩ := List.mem_map.1 hm
  obtain ⟨-, hc⟩ := w.catalog.offers_listed.mem_choices.1 hp
  obtain ⟨target, names, htargets⟩ := List.exists_cons_of_ne_nil hfactory
  rw [actions_purchase htargets, (hcount.buying_spec hp).1, Basket.names]
  constructor
  · rw [Board.factoryNames_eq] at htargets
    obtain ⟨t, ts, hfilter, rfl, -⟩ := List.map_eq_cons_iff.1 htargets
    refine ⟨t, by rw [← List.head?_filter, hfilter, List.head?_cons], fun a ha => ?_⟩
    obtain ⟨unit, -, rfl⟩ := List.mem_map.1 ha
    exact ⟨rfl, rfl, rfl⟩
  · intro a ha
    obtain ⟨unit, hunit, rfl⟩ := List.mem_map.1 ha
    obtain ⟨o, ho, rfl⟩ := List.mem_map.1 hunit
    obtain ⟨hpurchasable, hpos⟩ := w.catalog.mem_offers.1 (hc.offered o ho)
    exact ⟨o.cost, w.catalog.mem_purchasable.1 hpurchasable, hpos⟩
  · have hsum := Basket.sum_price_names w.catalog hc.offered
    rw [Basket.names] at hsum
    rw [List.map_map]
    exact hsum.trans_le hc.affordable

theorem moves_of_mem {phase : Phase} {policy : TerritoryId → Visit} {permitted : Journey → Prop}
    (hpermitted : ∀ j ∈ (MovementMove.trips w player policy).map MovementMove.Trip.journey,
      permitted j) {m : MovementMove} (hm : m ∈ MovementMove.legal w player phase policy) :
    w.Moves phase permitted (LegalMove.movement m).actions := by
  rw [MovementMove.legal_eq_map_trips] at hm
  obtain ⟨x, hx, rfl⟩ := List.mem_map.1 hm
  have horders := MovementMove.orders_move phase hx
  refine ⟨x.journey, hpermitted _ (List.mem_map_of_mem hx), ?_⟩
  rw [LegalMove.actions, horders.delegate_eq, horders.origin_eq, horders.target_eq,
    horders.unit_eq]

theorem permits_of_mem {names : List String} (hw : w.board.Sound names) {phase : Phase}
    {moves : List LegalMove} (h : LegalMove.all w player phase = .ok moves) {m : LegalMove}
    (hm : m ∈ moves) : w.Permits player phase m.actions := by
  cases phase with
  | purchase =>
      obtain ⟨purchases, hpurchases, h⟩ := Checked.bind_eq_ok_iff.1 h
      cases h
      obtain ⟨p, hp, rfl⟩ := List.mem_map.1 hm
      exact Or.inr (buys_of_mem hpurchases hp)
  | combat =>
      cases h
      obtain ⟨v, hv, rfl⟩ := List.mem_map.1 hm
      exact Or.inr (moves_of_mem (fun j => (MovementMove.mem_journeys_attack hw).1) hv)
  | noncombat =>
      cases h
      obtain ⟨v, hv, rfl⟩ := List.mem_map.1 hm
      exact Or.inr (moves_of_mem (fun j => (MovementMove.mem_journeys_reposition hw).1) hv)
  | place =>
      cases h
      obtain ⟨list, hlist, rfl⟩ := List.mem_map.1 hm
      exact places_of_mem hlist

end World

end Warboard
