import Warboard.Proofs.Moves.Basket

namespace Warboard

/-- Does the player own a factory there? -/
def Territory.hasFactory (t : Territory) (player : String) : Bool :=
  t.units.any fun s => s.key = ⟨"factory", player⟩ && 0 < s.quantity

def Purchase.bag (p : Purchase) : Multiset String := p.units

namespace Catalog

variable (catalog : Catalog)

/-- The cost of a unit; zero if it has none. -/
def price (unit : String) : Int := ((catalog.cost unit).getD 0).toInt

def offerOf (unit : String) : Offer := ⟨unit, (catalog.cost unit).getD 0⟩

/-- Units that can be bought together, each at a positive cost. -/
structure Affordable (budget : Int) (bag : Multiset String) : Prop where
  nonempty : bag ≠ 0
  purchasable : ∀ unit ∈ bag, ∃ cost, (unit, cost) ∈ catalog.purchasable ∧ 0 < cost
  total_le : (bag.map catalog.price).sum ≤ budget

theorem mem_purchasable {unit : String} {cost : Int64} :
    (unit, cost) ∈ catalog.purchasable ↔ catalog.cost unit = some cost := by
  rw [purchasable, Catalog.cost, Std.ExtTreeMap.getD_eq_getD_getElem?, List.mem_filterMap]
  constructor
  · rintro ⟨⟨u, rule⟩, hmem, hcost⟩
    obtain ⟨cost', hrule, he⟩ := Option.map_eq_some_iff.1 hcost
    cases he
    rw [Std.ExtTreeMap.mem_toList_iff_getElem?_eq_some.1 hmem]
    exact hrule
  · intro hcost
    cases hrule : catalog[unit]? with
    | none =>
        rw [hrule] at hcost
        cases hcost
    | some rule =>
        rw [hrule, Option.getD_some] at hcost
        exact ⟨(unit, rule), Std.ExtTreeMap.mem_toList_iff_getElem?_eq_some.2 hrule,
          by simp [hcost]⟩

theorem mem_offers {o : Offer} :
    o ∈ catalog.offers ↔ (o.unit, o.cost) ∈ catalog.purchasable ∧ 0 < o.cost := by
  rw [offers, List.mem_map]
  constructor
  · rintro ⟨⟨unit, cost⟩, hmem, rfl⟩
    obtain ⟨hmem, hpos⟩ := List.mem_filter.1 hmem
    exact ⟨hmem, of_decide_eq_true hpos⟩
  · rintro ⟨hmem, hpos⟩
    exact ⟨(o.unit, o.cost), List.mem_filter.2 ⟨hmem, decide_eq_true hpos⟩, rfl⟩

theorem price_of_mem_offers {o : Offer} (h : o ∈ catalog.offers) :
    catalog.price o.unit = o.cost.toInt := by
  rw [price, catalog.mem_purchasable.1 (catalog.mem_offers.1 h).1, Option.getD_some]

theorem offers_listed : Basket.Listed catalog.offers := by
  constructor
  · rw [offers, List.pairwise_map]
    apply List.Pairwise.filter
    rw [purchasable, List.pairwise_filterMap]
    refine Std.ExtTreeMap.ordered_keys_toList.imp ?_
    rintro ⟨u, r⟩ ⟨v, s⟩ hlt a ha b hb
    obtain ⟨x, -, rfl⟩ := Option.map_eq_some_iff.1 ha
    obtain ⟨y, -, rfl⟩ := Option.map_eq_some_iff.1 hb
    exact compare_lt_iff_lt.1 hlt
  · intro o ho
    exact Int64.lt_iff_toInt_lt.1 (catalog.mem_offers.1 ho).2

end Catalog

theorem Board.factoryNames_eq (b : Board) (player : String) : b.factoryNames player =
    (b.territories.filter fun t => t.hasFactory player).map Territory.name := by
  have hnames : ∀ e ∈ b.territories.zipIdx.filter fun e => e.1.hasFactory player,
      b.nameOf e.2 = e.1.name := by
    intro e he
    have hget := List.mk_mem_zipIdx_iff_getElem?.1 (List.mem_filter.1 he).1
    rw [Board.nameOf, hget]
    rfl
  calc b.factoryNames player
    _ = (b.territories.zipIdx.filter fun e => e.1.hasFactory player).map
        fun e => b.nameOf e.2 := by
      rw [factoryNames, factories, List.map_map]
      rfl
    _ = (b.territories.zipIdx.filter fun e => e.1.hasFactory player).map fun e => e.1.name :=
      List.map_congr_left hnames
    _ = ((b.territories.zipIdx.map Prod.fst).filter fun t => t.hasFactory player).map
        Territory.name := by
      rw [List.filter_map, List.map_map]
      rfl
    _ = _ := by rw [List.zipIdx_map_fst]

theorem Board.factoryNames_ne_nil_iff (b : Board) (player : String) :
    b.factoryNames player ≠ [] ↔ ∃ t ∈ b.territories, t.hasFactory player := by
  rw [factoryNames_eq, ne_eq, List.map_eq_nil_iff, List.filter_eq_nil_iff]
  push Not
  rfl

namespace PurchaseMove

open Basket

variable (w : World) (player : String)

/-- The move that buys the picks. -/
def buying (picks : List Offer) : PurchaseMove :=
  ⟨(empty.extend picks).purchase, (empty.extend picks).cost, w.board.factoryNames player⟩

/-- No purchase is so large that its units cannot be counted. -/
def Countable : Prop :=
  ∀ cheapest ∈ (w.catalog.offers.map fun o => o.cost.toInt).min?,
    (w.board.balanceOf player).toInt / cheapest < UInt32.size

variable {w player}

theorem Countable.room (h : Countable w player) {n : Nat}
    (hn : n ∈ sizes w.catalog.offers (w.board.balanceOf player).toInt) :
    Room empty n (w.board.balanceOf player).toInt := by
  obtain ⟨cheapest, hmin, -, hle⟩ := mem_sizes_iff.1 hn
  have hlt := h cheapest hmin
  exact room_empty (by omega) (Int64.toInt_le _)

theorem legal_of_no_factory (h : w.board.factoryNames player = []) : legal w player = .ok [] := by
  simp only [legal, h]

theorem Countable.legal_eq (h : Countable w player) (hfactory : w.board.factoryNames player ≠ []) :
    legal w player = .ok ((choices w.catalog.offers (w.board.balanceOf player).toInt).map
      (buying w player)) := by
  obtain ⟨name, names, hnames⟩ := List.exists_cons_of_ne_nil hfactory
  cases hmin : (w.catalog.offers.map fun o => o.cost.toInt).min? with
  | none => simp only [legal, hnames, hmin, choices, sizes, List.flatMap_nil, List.map_nil]
  | some cheapest =>
      have hsizes : sizes w.catalog.offers (w.board.balanceOf player).toInt =
          (List.range ((w.board.balanceOf player).toInt / cheapest).toNat).map (· + 1) := by
        rw [sizes, hmin]
      have hfill : (sizes w.catalog.offers (w.board.balanceOf player).toInt).mapM
          (fun n => fill w.catalog.offers n (w.board.balanceOf player).toInt empty) =
          .ok ((sizes w.catalog.offers (w.board.balanceOf player).toInt).map fun n =>
            (completions w.catalog.offers n (w.board.balanceOf player).toInt).map empty.extend) :=
        Checked.mapM_eq_ok fun n hn => (h.room hn).fill_eq w.catalog.offers_listed.priced
      rw [hsizes] at hfill
      simp only [legal, hnames, hmin]
      rw [hfill, choices, hsizes]
      simp only [bind, Except.bind, pure, Except.pure, List.flatMap_def, List.map_flatten,
        List.map_map]
      rw [Except.ok.injEq]
      congr 1
      apply List.map_congr_left
      intro n _
      simp [buying, hnames]

/-- What is true of the picks that the enumeration goes through. -/
theorem Countable.buying_spec (h : Countable w player) {picks : List Offer}
    (hp : picks ∈ choices w.catalog.offers (w.board.balanceOf player).toInt) :
    (buying w player picks).purchase.units = names picks ∧
      (buying w player picks).purchase.Proper ∧
      (buying w player picks).cost.toInt = total picks := by
  obtain ⟨hne, hc⟩ := w.catalog.offers_listed.mem_choices.1 hp
  have hpos : ∀ o ∈ picks, 0 < o.cost.toInt := fun o ho =>
    w.catalog.offers_listed.priced o (hc.offered o ho)
  have hroom := h.room (w.catalog.offers_listed.mem_sizes_of_completes hne hc)
  refine ⟨units_extend_empty hroom hpos hc.affordable hc.sorted, ?_, ?_⟩
  · apply hroom.proper_extend hpos hc.affordable
    intro unit
    rw [empty, Std.ExtTreeMap.getElem?_empty]
    exact (Option.some_ne_none 0).symm
  · rw [buying, hroom.cost_extend hpos hc.affordable, empty, Int64.toInt_zero, Int.zero_add]

end PurchaseMove

namespace Basket

variable (catalog : Catalog) {budget : Int}

theorem sum_price_names {picks : List Offer} (h : ∀ o ∈ picks, o ∈ catalog.offers) :
    ((names picks).map catalog.price).sum = total picks := by
  rw [names, List.map_map, total]
  exact congrArg List.sum (List.map_congr_left fun o ho => catalog.price_of_mem_offers (h o ho))

/-- The bags of names that the choices make up are those that can be paid for. -/
theorem exists_choice_iff {bag : Multiset String} :
    (∃ picks ∈ choices catalog.offers budget, (names picks : Multiset String) = bag) ↔
      catalog.Affordable budget bag := by
  constructor
  · rintro ⟨picks, hp, rfl⟩
    obtain ⟨hne, hc⟩ := catalog.offers_listed.mem_choices.1 hp
    refine ⟨?_, ?_, ?_⟩
    · simpa [names] using hne
    · intro unit hunit
      obtain ⟨o, ho, rfl⟩ := List.mem_map.1 (Multiset.mem_coe.1 hunit)
      exact ⟨o.cost, catalog.mem_offers.1 (hc.offered o ho)⟩
    · rw [Multiset.map_coe, Multiset.sum_coe, sum_price_names catalog hc.offered]
      exact hc.affordable
  · intro h
    have hnames : names ((bag.sort (· ≤ ·)).map catalog.offerOf) = bag.sort (· ≤ ·) := by
      rw [names, List.map_map]
      exact List.map_id _
    have hoffered : ∀ o ∈ (bag.sort (· ≤ ·)).map catalog.offerOf, o ∈ catalog.offers := by
      intro o ho
      obtain ⟨unit, hunit, rfl⟩ := List.mem_map.1 ho
      obtain ⟨cost, hcost, hpos⟩ := h.purchasable unit ((Multiset.mem_sort (· ≤ ·)).1 hunit)
      rw [Catalog.offerOf, catalog.mem_purchasable.1 hcost]
      exact catalog.mem_offers.2 ⟨hcost, hpos⟩
    refine ⟨_, catalog.offers_listed.mem_choices.2 ⟨?_, rfl, hoffered, ?_, ?_⟩, ?_⟩
    · intro hnil
      apply h.nonempty
      rw [← Multiset.sort_eq bag (· ≤ ·), ← hnames, hnil]
      rfl
    · rw [List.pairwise_map]
      exact Multiset.pairwise_sort bag (· ≤ ·)
    · rw [← sum_price_names catalog hoffered, hnames, ← Multiset.sum_coe, ← Multiset.map_coe,
        Multiset.sort_eq]
      exact h.total_le
    · rw [hnames, Multiset.sort_eq]

theorem Before.ne {xs ys : List String} (h : Before xs ys) : xs ≠ ys := by
  rintro rfl
  obtain h | ⟨-, h⟩ := h
  · exact lt_irrefl _ h
  · exact lt_irrefl _ h

end Basket

namespace PurchaseMove

open Basket

/-- The moves are exactly the bags that the player can pay for, each once: the smaller ones first,
those of one size in the lexicographic order of the sorted names. Nothing overflows. -/
theorem legal_enumerates (w : World) (player : String) (h : Countable w player) :
    ∃ moves, legal w player = .ok moves ∧
      (moves.map fun m => m.purchase.bag).Nodup ∧
      (∀ bag, bag ∈ moves.map (fun m => m.purchase.bag) ↔
        (∃ t ∈ w.board.territories, t.hasFactory player) ∧
          w.catalog.Affordable (w.board.balanceOf player).toInt bag) ∧
      (∀ m ∈ moves, m.purchase.Proper ∧
        m.cost.toInt =
          (m.purchase.toList.map fun (unit, n) => w.catalog.price unit * n.toNat).sum ∧
        m.placeIn = (w.board.territories.filter fun t => t.hasFactory player).map Territory.name ∧
        m.purchase.units.Pairwise (· ≤ ·)) ∧
      moves.Pairwise fun m m' => Before m.purchase.units m'.purchase.units := by
  rw [← Board.factoryNames_ne_nil_iff, ← Board.factoryNames_eq]
  by_cases hfactory : w.board.factoryNames player = []
  · refine ⟨[], legal_of_no_factory hfactory, List.nodup_nil, ?_, ?_, .nil⟩
    · simp [hfactory]
    · simp
  · have hincreasing : ((choices w.catalog.offers (w.board.balanceOf player).toInt).map
        (buying w player)).Pairwise fun m m' => Before m.purchase.units m'.purchase.units := by
      rw [List.pairwise_map]
      apply w.catalog.offers_listed.choices_increasing.imp_of_mem
      intro xs ys hxs hys hlt
      rw [(h.buying_spec hxs).1, (h.buying_spec hys).1]
      exact hlt
    refine ⟨_, h.legal_eq hfactory, ?_, ?_, ?_, hincreasing⟩
    · rw [List.nodup_iff_pairwise_ne, List.pairwise_map]
      apply hincreasing.imp
      intro m m' hlt he
      apply hlt.ne
      exact List.Perm.eq_of_pairwise' m.purchase.units_sorted m'.purchase.units_sorted
        (Multiset.coe_eq_coe.1 he)
    · intro bag
      rw [and_iff_right hfactory, ← exists_choice_iff]
      simp only [List.mem_map, exists_exists_and_eq_and]
      refine exists_congr fun picks => and_congr_right fun hp => ?_
      rw [Purchase.bag, (h.buying_spec hp).1]
    · intro m hm
      obtain ⟨picks, hp, rfl⟩ := List.mem_map.1 hm
      obtain ⟨hunits, hproper, hcost⟩ := h.buying_spec hp
      refine ⟨hproper, ?_, rfl, Purchase.units_sorted _⟩
      rw [hcost, ← Purchase.sum_units, hunits]
      exact (sum_price_names w.catalog (w.catalog.offers_listed.mem_choices.1 hp).2.offered).symm

def moscow : Territory :=
  ⟨"Moscow", "Russians", [⟨⟨"factory", "Russians"⟩, 1, .fresh⟩], false, false, ∅⟩

/-- Eight production units, armour for five and infantry for three. -/
def rearming : World :=
  let catalog : Catalog := .ofList
    [("armour", { UnitRule.ordinary with cost := some 5 }),
      ("infantry", { UnitRule.ordinary with cost := some 3 })]
  let board : Board :=
    ⟨[moscow], .ofList [("Russians", { Owner.new "Russians" with balance := 8 })]⟩
  ⟨catalog, board, board, none, 1⟩

theorem legal_rearming : Countable rearming "Russians" ∧ ∃ moves,
    legal rearming "Russians" = .ok moves ∧
      ({"armour", "infantry"} : Multiset String) ∈ moves.map fun m => m.purchase.bag := by
  have hcheapest : (rearming.catalog.offers.map fun o => o.cost.toInt).min? = some 3 := by
    decide +kernel
  have hbalance : (rearming.board.balanceOf "Russians").toInt = 8 := by decide +kernel
  have hcountable : Countable rearming "Russians" := by
    intro cheapest hmin
    rw [hcheapest] at hmin
    cases hmin
    rw [hbalance]
    decide
  obtain ⟨moves, hlegal, -, hbags, -, -⟩ := legal_enumerates rearming "Russians" hcountable
  refine ⟨hcountable, moves, hlegal, (hbags _).2 ⟨⟨moscow, ?_, by decide⟩, ?_, ?_, ?_⟩⟩
  · exact List.mem_singleton_self moscow
  · exact Multiset.cons_ne_zero
  · intro unit hunit
    have hcosts : ("armour", 5) ∈ rearming.catalog.purchasable ∧
        ("infantry", 3) ∈ rearming.catalog.purchasable := by decide +kernel
    obtain rfl | rfl : unit = "armour" ∨ unit = "infantry" := by simpa using hunit
    · exact ⟨5, hcosts.1, by decide⟩
    · exact ⟨3, hcosts.2, by decide⟩
  · rw [hbalance]
    decide +kernel

end PurchaseMove

end Warboard
