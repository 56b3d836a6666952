import Warboard.Proofs.Moves.Listing
import Warboard.Proofs.Table

namespace Warboard

open Checked

namespace Purchase

variable {catalog : Catalog} {entries : List (String × UInt32)} {p p' : Purchase}

/-- The cost of some of the entries of a purchase. -/
def cost (catalog : Catalog) (entries : List (String × UInt32)) : Int :=
  (entries.map fun (unit, n) => catalog.price unit * n.toNat).sum

/-- The text names no unit more often than can be counted. -/
def Summable (t : Text) : Prop := ∀ unit : String,
  ((Change.productions t).map fun (u, n) => if u = unit then n.toNat else 0).sum < UInt32.size

/-- Each entry has a cost that is an amount, and so have the entries up to each. -/
structure Priced (catalog : Catalog) (entries : List (String × UInt32)) : Prop where
  each : ∀ e ∈ entries, FitsAmount (catalog.price e.1 * e.2.toNat)
  upTo : ∀ before, before <+: entries → FitsAmount (cost catalog before)

theorem add_eq_error_iff {unit : String} {n : UInt32} {e : Overflow} :
    p.add unit n = .error e ↔ e = .add ∧ UInt32.size ≤ (p.getD unit 0).toNat + n.toNat := by
  rw [add, bind_eq_error_iff, addQuantity_eq_error_iff]
  simp [pure, Except.pure]

theorem getD_of_add {unit : String} {n : UInt32} (h : p.add unit n = .ok p') (u : String) :
    (p'.getD u 0).toNat = (p.getD u 0).toNat + if unit = u then n.toNat else 0 := by
  obtain ⟨total, htotal, h⟩ := bind_eq_ok_iff.mp h
  cases h
  exact Table.toNat_getD_insert htotal u

theorem exists_ofText_iff {t : Text} : (∃ p, ofText t = .ok p) ↔ Summable t := by
  have hloop (e : Overflow) := foldlM_weigh_eq_error_iff (fun _ => True)
    (fun (p : Purchase) (unit : String) => (p.getD unit 0).toNat) Prod.fst
    (fun entry : String × UInt32 => entry.2.toNat) (fun p unit => (p.getD unit 0).toNat_lt_size)
    (fun p entry e _ => add_eq_error_iff) (fun p entry p' _ h => ⟨trivial, getD_of_add h⟩)
    (s := ∅) trivial (Change.productions t) e
  have hsum := exists_ok_iff_not hloop
  simp only [Std.ExtTreeMap.getD_empty, UInt32.toNat_zero, Nat.zero_add, not_exists,
    Nat.not_le] at hsum
  rw [Summable, ← hsum]
  exact exists_bind_iff_of_forall fun _ => ⟨_, rfl⟩

theorem cost_cons (e : String × UInt32) (entries : List (String × UInt32)) :
    cost catalog (e :: entries) = catalog.price e.1 * e.2.toNat + cost catalog entries := rfl

/-- The cost of one more entry is added to what the entries before it cost. -/
def charge (catalog : Catalog) (total : Int64) (e : String × UInt32) : Checked Int64 := do
  addAmount total (← multiplyAmount ((catalog.cost e.1).getD 0) e.2.toUInt64.toInt64)

theorem price_eq_foldlM (p : Purchase) : p.price catalog = p.toList.foldlM (charge catalog) 0 := rfl

theorem charge_eq_ok_iff {total total' : Int64} {e : String × UInt32} :
    charge catalog total e = .ok total' ↔ FitsAmount (catalog.price e.1 * e.2.toNat) ∧
      total'.toInt = total.toInt + catalog.price e.1 * e.2.toNat := by
  simp only [charge, bind_eq_ok_iff, multiplyAmount_eq_ok_iff, addAmount_eq_ok_iff, toInt_toInt64]
  rw [← Catalog.price, ← exists_toInt_eq_iff]
  constructor
  · rintro ⟨c, hc, h⟩
    exact ⟨⟨c, hc⟩, hc ▸ h⟩
  · rintro ⟨⟨c, hc⟩, h⟩
    exact ⟨c, hc, hc ▸ h⟩

theorem exists_foldlM_charge_iff {total : Int64} :
    (∃ c, entries.foldlM (charge catalog) total = .ok c) ↔
      (∀ e ∈ entries, FitsAmount (catalog.price e.1 * e.2.toNat)) ∧
        ∀ before, before <+: entries → FitsAmount (total.toInt + cost catalog before) := by
  induction entries generalizing total with
  | nil =>
      refine ⟨fun _ => ⟨fun e he => absurd he List.not_mem_nil, fun before hbefore => ?_⟩,
        fun _ => ⟨total, rfl⟩⟩
      rw [List.prefix_nil.1 hbefore]
      exact (Int.add_zero _).symm ▸ fitsAmount_toInt total
  | cons e entries ih =>
      rw [List.foldlM_cons, exists_bind_eq_ok_iff]
      simp only [charge_eq_ok_iff, ih]
      constructor
      · rintro ⟨total', ⟨heach, htotal⟩, hrest, hupTo⟩
        refine ⟨List.forall_mem_cons.2 ⟨heach, hrest⟩, fun before hbefore => ?_⟩
        obtain rfl | ⟨later, rfl, hlater⟩ := List.prefix_cons_iff.1 hbefore
        · exact (Int.add_zero _).symm ▸ fitsAmount_toInt total
        · rw [cost_cons, ← Int.add_assoc, ← htotal]
          exact hupTo later hlater
      · rintro ⟨heach, hupTo⟩
        obtain ⟨heach, hrest⟩ := List.forall_mem_cons.1 heach
        have hnext := hupTo [e] (List.prefix_append [e] entries)
        rw [cost_cons, cost, List.map_nil, List.sum_nil, Int.add_zero] at hnext
        obtain ⟨total', htotal⟩ := exists_toInt_eq_iff.2 hnext
        refine ⟨total', ⟨heach, htotal⟩, hrest, fun before hbefore => ?_⟩
        rw [htotal, Int.add_assoc, ← cost_cons]
        exact hupTo (e :: before) (List.cons_prefix_cons.2 ⟨rfl, hbefore⟩)

theorem exists_price_iff : (∃ c, p.price catalog = .ok c) ↔ Priced catalog p.toList := by
  rw [price_eq_foldlM, exists_foldlM_charge_iff]
  simp only [Int64.toInt_zero, Int.zero_add]
  exact ⟨fun h => ⟨h.1, h.2⟩, fun h => ⟨h.each, h.upTo⟩⟩

/-- Without negative costs no part of a purchase costs more than the whole. -/
theorem Priced.of_nonneg (hnonneg : ∀ e ∈ entries, 0 ≤ catalog.price e.1 * e.2.toNat)
    (hmax : cost catalog entries ≤ Int64.maxValue.toInt) : Priced catalog entries := by
  have hmin : Int64.minValue.toInt ≤ 0 := by decide
  have hpart {part rest : List (String × UInt32)} (h : (part ++ rest).Perm entries) :
      FitsAmount (cost catalog part) := by
    have hsum : cost catalog part + cost catalog rest = cost catalog entries := by
      rw [cost, cost, ← List.sum_append, ← List.map_append, (h.map _).sum_eq, cost]
    have hpos : ∀ es ⊆ entries, 0 ≤ cost catalog es := by
      intro es hes
      apply List.sum_nonneg
      intro x hx
      obtain ⟨e, he, rfl⟩ := List.mem_map.1 hx
      exact hnonneg e (hes he)
    have h₁ := hpos part fun e he => h.subset (List.mem_append_left rest he)
    have h₂ := hpos rest fun e he => h.subset (List.mem_append_right part he)
    exact ⟨by omega, by omega⟩
  constructor
  · intro e he
    have h : FitsAmount (cost catalog [e]) := hpart (List.perm_cons_erase he).symm
    rwa [cost_cons, cost, List.map_nil, List.sum_nil, Int.add_zero] at h
  · rintro before ⟨later, rfl⟩
    exact hpart (List.Perm.refl _)

theorem toInt_of_foldlM_charge {total c : Int64}
    (h : entries.foldlM (charge catalog) total = .ok c) :
    c.toInt = total.toInt + cost catalog entries := by
  induction entries generalizing total with
  | nil =>
      cases h
      exact (Int.add_zero _).symm
  | cons e entries ih =>
      rw [List.foldlM_cons, bind_eq_ok_iff] at h
      obtain ⟨next, hnext, h⟩ := h
      rw [ih h, (charge_eq_ok_iff.1 hnext).2, cost_cons, Int.add_assoc]

theorem price_eq_ok_iff {c : Int64} :
    p.price catalog = .ok c ↔ Priced catalog p.toList ∧ c.toInt = cost catalog p.toList := by
  have hvalue {d : Int64} (h : p.price catalog = .ok d) : d.toInt = cost catalog p.toList := by
    have hsum := toInt_of_foldlM_charge h
    rwa [Int64.toInt_zero, Int.zero_add] at hsum
  constructor
  · intro h
    exact ⟨exists_price_iff.1 ⟨c, h⟩, hvalue h⟩
  · rintro ⟨hpriced, hc⟩
    obtain ⟨d, hd⟩ := exists_price_iff.2 hpriced
    rw [hd, Int64.toInt_inj.1 ((hvalue hd).trans hc.symm)]

end Purchase

namespace PurchaseMove

open Basket

variable {w : World} {player : String} {picks : List Offer} {moves : List PurchaseMove}
  {m : PurchaseMove}

theorem Countable.cost_buying (h : Countable w player)
    (hp : picks ∈ choices w.catalog.offers (w.board.balanceOf player).toInt) :
    (buying w player picks).cost.toInt =
      Purchase.cost w.catalog (buying w player picks).purchase.toList := by
  obtain ⟨hunits, -, hcost⟩ := h.buying_spec hp
  have hoffered := (w.catalog.offers_listed.mem_choices.1 hp).2.offered
  rw [hcost, Purchase.cost, ← Purchase.sum_units, hunits, sum_price_names w.catalog hoffered]

theorem exists_picks_of_legal (h : legal w player = .ok moves) (hm : m ∈ moves) :
    ∃ picks ∈ choices w.catalog.offers (w.board.balanceOf player).toInt,
      buying w player picks = m := by
  by_cases hfactory : w.board.factoryNames player = []
  · rw [legal_of_no_factory hfactory] at h
    cases h
    cases hm
  · rw [(countable_of_legal h hfactory).legal_eq hfactory] at h
    cases h
    exact List.mem_map.1 hm

theorem affordable_of_legal (h : legal w player = .ok moves) (hm : m ∈ moves) :
    w.catalog.Affordable (w.board.balanceOf player).toInt m.purchase.bag := by
  have henum := enumerated_of_legal h (List.ne_nil_of_mem hm)
  refine (henum.mem_iff _).1 ?_
  rw [List.map_map]
  exact List.mem_map_of_mem hm

theorem proper_of_legal (h : legal w player = .ok moves) (hm : m ∈ moves) : m.purchase.Proper :=
  (enumerated_of_legal h (List.ne_nil_of_mem hm)).proper _ (List.mem_map_of_mem hm)

theorem priced_of_legal (h : legal w player = .ok moves) (hm : m ∈ moves) :
    Purchase.Priced w.catalog m.purchase.toList := by
  have haffordable := affordable_of_legal h hm
  apply Purchase.Priced.of_nonneg
  · rintro ⟨unit, n⟩ he
    rcases Nat.eq_zero_or_pos n.toNat with hn | hn
    · rw [hn, Int.natCast_zero, Int.mul_zero]
    · have hbag : unit ∈ m.purchase.bag := Multiset.mem_coe.2 (List.mem_flatMap.2
        ⟨(unit, n), he, List.mem_replicate.2 ⟨by omega, rfl⟩⟩)
      obtain ⟨cost, hcost, hpos⟩ := haffordable.purchasable unit hbag
      have hprice : 0 < w.catalog.price unit := by
        rw [Catalog.price, w.catalog.mem_purchasable.1 hcost, Option.getD_some]
        exact Int64.lt_iff_toInt_lt.1 hpos
      exact Int.mul_nonneg hprice.le (Int.natCast_nonneg _)
  · have hsum : (m.purchase.bag.map w.catalog.price).sum =
        Purchase.cost w.catalog m.purchase.toList := by
      rw [Purchase.bag, Multiset.map_coe, Multiset.sum_coe, Purchase.sum_units, Purchase.cost]
    exact (hsum ▸ haffordable.total_le).trans (w.board.balanceOf player).toInt_le

/-- The purchase of a legal move, priced anew, gives the move again, and no product and no sum on
the way overflows. -/
theorem ofPurchase_of_legal (w : World) (player : String) (h : Countable w player) :
    ∃ moves, legal w player = .ok moves ∧ ∀ m ∈ moves,
      ofPurchase w player m.purchase = .ok m ∧ Purchase.Priced w.catalog m.purchase.toList := by
  obtain ⟨moves, hlegal⟩ := exists_legal_iff.2 fun _ => h
  refine ⟨moves, hlegal, fun m hm => ?_⟩
  have hpriced := priced_of_legal hlegal hm
  obtain ⟨picks, hp, rfl⟩ := exists_picks_of_legal hlegal hm
  refine ⟨?_, hpriced⟩
  rw [ofPurchase, Purchase.price_eq_ok_iff.2 ⟨hpriced, h.cost_buying hp⟩]
  rfl

/-- A player who has the largest amount there is, and units that take up almost all of it. -/
def hoarding : World :=
  let catalog : Catalog := .ofList
    [("battleship", { UnitRule.ordinary with cost := some 4000000000000000000 }),
      ("cruiser", { UnitRule.ordinary with cost := some 3074457345618258602 })]
  let board : Board :=
    ⟨[moscow], .ofList [("Russians", { Owner.new "Russians" with balance := Int64.maxValue })]⟩
  ⟨catalog, board, board, none, 1⟩

theorem ofPurchase_of_legal_hoarding : Countable hoarding "Russians" ∧ ∃ moves,
    legal hoarding "Russians" = .ok moves ∧
      (moves.map fun m => (m.purchase.toList, m.cost)) =
        [([("battleship", 1)], 4000000000000000000), ([("cruiser", 1)], 3074457345618258602),
          ([("battleship", 2)], 8000000000000000000),
          ([("battleship", 1), ("cruiser", 1)], 7074457345618258602),
          ([("cruiser", 2)], 6148914691236517204), ([("cruiser", 3)], 9223372036854775806)] ∧
      ∀ m ∈ moves, ofPurchase hoarding "Russians" m.purchase = .ok m ∧
        Purchase.Priced hoarding.catalog m.purchase.toList := by
  have hcountable : Countable hoarding "Russians" := by
    have hcheapest : (hoarding.catalog.offers.map fun o => o.cost.toInt).min? =
        some 3074457345618258602 := by decide +kernel
    have hbalance : (hoarding.board.balanceOf "Russians").toInt = 9223372036854775807 := by
      decide +kernel
    intro cheapest hmin
    rw [hcheapest] at hmin
    cases hmin
    rw [hbalance]
    decide
  obtain ⟨moves, hlegal, hmoves⟩ := ofPurchase_of_legal hoarding "Russians" hcountable
  have hlist : ((legal hoarding "Russians").toOption.map fun moves =>
      moves.map fun m => (m.purchase.toList, m.cost)) =
        some [([("battleship", 1)], 4000000000000000000), ([("cruiser", 1)], 3074457345618258602),
          ([("battleship", 2)], 8000000000000000000),
          ([("battleship", 1), ("cruiser", 1)], 7074457345618258602),
          ([("cruiser", 2)], 6148914691236517204), ([("cruiser", 3)], 9223372036854775806)] := by
    decide +kernel
  rw [hlegal] at hlist
  exact ⟨hcountable, moves, hlegal, Option.some.inj hlist, hmoves⟩

end PurchaseMove

end Warboard
