import Warboard.Proofs.Moves.Purchase

namespace Warboard

open Checked

/-- The purchases are all that can be paid for with the budget, each once and in one form. -/
structure Catalog.Enumerated (catalog : Catalog) (budget : Int) (purchases : List Purchase) :
    Prop where
  proper : ∀ purchase ∈ purchases, purchase.Proper
  nodup : (purchases.map Purchase.bag).Nodup
  mem_iff : ∀ bag, bag ∈ purchases.map Purchase.bag ↔ catalog.Affordable budget bag

namespace Basket

theorem count_of_add {b b' : Basket} {o : Offer} (h : b.add o = .ok b') :
    (b'.purchase.getD o.unit 0).toNat = (b.purchase.getD o.unit 0).toNat + 1 := by
  obtain ⟨purchase, hpurchase, h⟩ := bind_eq_ok_iff.1 h
  obtain ⟨cost, -, h⟩ := bind_eq_ok_iff.1 h
  obtain ⟨n, hn, hpurchase⟩ := bind_eq_ok_iff.1 hpurchase
  cases h
  cases hpurchase
  rw [Std.ExtTreeMap.getD_insert_self]
  exact addQuantity_eq_ok_iff.1 hn

variable {o : Offer} {offers : List Offer} {n : Nat} {budget : Int} {b : Basket}
  {bs : List Basket}

/-- What a search that gives a result has gone through: the offers after the first, and more of the
first as long as the budget allows it. -/
theorem fill_cons_eq_ok (h : fill (o :: offers) (n + 1) budget b = .ok bs) :
    (∃ later, fill offers (n + 1) budget b = .ok later) ∧ (o.cost.toInt ≤ budget →
      ∃ b' here, b.add o = .ok b' ∧ fill (o :: offers) n (budget - o.cost.toInt) b' = .ok here) := by
  rw [fill_cons] at h
  obtain ⟨here, hhere, h⟩ := bind_eq_ok_iff.1 h
  obtain ⟨later, hlater, -⟩ := exists_ok_of_map (congrArg Except.toOption h)
  refine ⟨⟨later, hlater⟩, fun hle => ?_⟩
  rw [if_pos hle] at hhere
  obtain ⟨b', hb', hhere⟩ := bind_eq_ok_iff.1 hhere
  exact ⟨b', here, hb', hhere⟩

/-- A search that gives a result can count every unit of which the budget pays for `n`. -/
theorem lt_size_of_fill (hpos : 0 < o.cost.toInt) (h : fill offers n budget b = .ok bs)
    (ho : o ∈ offers) (hn : n * o.cost.toInt ≤ budget) :
    (b.purchase.getD o.unit 0).toNat + n < UInt32.size := by
  induction n generalizing offers budget b bs with
  | zero => exact (b.purchase.getD o.unit 0).toNat_lt_size
  | succ n ihn =>
      induction offers generalizing bs with
      | nil => exact absurd ho List.not_mem_nil
      | cons o' offers iho =>
          obtain ⟨⟨later, hlater⟩, hhere⟩ := fill_cons_eq_ok h
          obtain rfl | ho := List.mem_cons.1 ho
          · rw [Nat.cast_succ, Int.add_mul, Int.one_mul] at hn
            have hnonneg : 0 ≤ (n : Int) * o.cost.toInt :=
              Int.mul_nonneg (Int.natCast_nonneg n) (le_of_lt hpos)
            obtain ⟨b', here, hb', hhere⟩ := hhere (by omega)
            have hcount := ihn hhere List.mem_cons_self (by omega)
            rw [count_of_add hb'] at hcount
            omega
          · exact iho hlater ho

end Basket

namespace PurchaseMove

open Basket

variable {w : World} {player : String} {moves : List PurchaseMove}

/-- A player whose purchases were listed can count all units of each. -/
theorem countable_of_legal (h : legal w player = .ok moves)
    (hfactory : w.board.factoryNames player ≠ []) : Countable w player := by
  intro cheapest hmin
  obtain ⟨name, names, hnames⟩ := List.exists_cons_of_ne_nil hfactory
  obtain ⟨o, ho, rfl⟩ := List.mem_map.1 (List.min?_eq_some_iff.1 hmin).1
  have hpos := w.catalog.offers_listed.priced o ho
  by_contra hmany
  simp only [legal, hnames, Option.mem_def.1 hmin] at h
  obtain ⟨baskets, hbaskets, -⟩ := bind_eq_ok_iff.1 h
  have hsize : UInt32.size ∈
      (List.range ((w.board.balanceOf player).toInt / o.cost.toInt).toNat).map (· + 1) := by
    refine List.mem_map.2 ⟨UInt32.size - 1, List.mem_range.2 ?_, rfl⟩
    simp only [UInt32.size] at hmany ⊢
    omega
  obtain ⟨bs, hbs⟩ := exists_ok_of_mapM hbaskets hsize
  have hcount := lt_size_of_fill hpos hbs ho ((Int.le_ediv_iff_mul_le hpos).1 (by omega))
  omega

theorem exists_legal_iff :
    (∃ moves, legal w player = .ok moves) ↔ w.board.factoryNames player ≠ [] → Countable w player := by
  constructor
  · rintro ⟨moves, h⟩
    exact countable_of_legal h
  · intro h
    by_cases hfactory : w.board.factoryNames player = []
    · exact ⟨[], legal_of_no_factory hfactory⟩
    · exact ⟨_, (h hfactory).legal_eq hfactory⟩

/-- Where a purchase is legal, all are listed that the player can pay for. -/
theorem enumerated_of_legal (h : legal w player = .ok moves) (hne : moves ≠ []) :
    w.catalog.Enumerated (w.board.balanceOf player).toInt (moves.map fun m => m.purchase) := by
  have hfactory : w.board.factoryNames player ≠ [] := by
    intro hnone
    rw [legal_of_no_factory hnone] at h
    cases h
    exact hne rfl
  have hcount := countable_of_legal h hfactory
  rw [hcount.legal_eq hfactory, Except.ok.injEq] at h
  subst h
  rw [List.map_map]
  refine ⟨?_, ?_, fun bag => ?_⟩
  · intro purchase hpurchase
    obtain ⟨picks, hp, rfl⟩ := List.mem_map.1 hpurchase
    exact (hcount.buying_spec hp).2.1
  · rw [List.map_map, List.nodup_iff_pairwise_ne, List.pairwise_map]
    apply w.catalog.offers_listed.choices_increasing.imp_of_mem
    intro xs ys hxs hys hlt he
    apply hlt.ne
    rw [← (hcount.buying_spec hxs).1, ← (hcount.buying_spec hys).1]
    exact List.Perm.eq_of_pairwise' (Purchase.units_sorted _) (Purchase.units_sorted _)
      (Multiset.coe_eq_coe.1 he)
  · rw [List.map_map, ← exists_choice_iff, List.mem_map]
    refine exists_congr fun picks => and_congr_right fun hp => ?_
    change (buying w player picks).purchase.bag = bag ↔ _
    rw [Purchase.bag, (hcount.buying_spec hp).1]

end PurchaseMove

end Warboard
