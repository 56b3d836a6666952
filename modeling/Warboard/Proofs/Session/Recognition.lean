import Warboard.Proofs.Moves.Echo
import Warboard.Proofs.Session.Bookkeeping

namespace Warboard.Session

open Checked


theorem made_of_recordOf {σ : Type} {s : Session σ} {player : String} {purchase : Purchase}
    (hmem : ∃ m ∈ s.purchases, m.purchase = purchase)
    {x : Option (PurchaseRecord × Session σ)} (h : s.recordOf player purchase = .ok x) :
    ∃ made, x = some made := by
  obtain ⟨chosen, hchosen, h⟩ := bind_eq_ok_iff.mp h
  obtain ⟨cost, -, hchosen⟩ := bind_eq_ok_iff.mp hchosen
  cases hchosen
  have hany : (s.purchases.any fun m => m.purchase = purchase) = true := by simpa using hmem
  rw [hany, if_pos rfl] at h
  obtain ⟨ids, -, h⟩ := bind_eq_ok_iff.mp h
  obtain ⟨id, -, h⟩ := bind_eq_ok_iff.mp h
  obtain ⟨state, -, h⟩ := bind_eq_ok_iff.mp h
  cases h
  exact ⟨_, rfl⟩

/-- The engine can echo a listed purchase in any words that name its units, as long as these names
can be got back from those of their rules: the text is read as that purchase, and where the session
expects it, a record is made, if the units on the board can be counted. -/
theorem decision_echo {w : World} {player : String} {moves : List PurchaseMove} {m : PurchaseMove}
    (h : PurchaseMove.legal w player = .ok moves) (hm : m ∈ moves)
    {entries : List (String × UInt32)} (hlegible : ∀ e ∈ entries, Legible e.1)
    (hbought : ∀ e ∈ entries, e.1 ∈ m.purchase)
    (hamount : ∀ unit, Purchase.amount unit entries = (m.purchase.getD unit 0).toNat) :
    Purchase.ofText (Purchase.echo entries) = .ok (some m.purchase) ∧
      ∀ (σ : Type) (s : Session σ) (name : Text), Numbered s → s.world.catalog = w.catalog →
        m ∈ s.purchases → ((∃ made, s.decision name (Purchase.echo entries) = .ok (some made)) ↔
          s.world.board.Countable) := by
  have hread := PurchaseMove.ofText_echo h hm hlegible hbought hamount
  refine ⟨hread, fun σ s name hs hcatalog hexpected => ?_⟩
  obtain ⟨cost, hcost⟩ := Purchase.exists_price_iff.2 (PurchaseMove.priced_of_legal h hm)
  rw [← hcatalog] at hcost
  have hrecord : (∃ made, s.recordOf (String.ofList name) m.purchase = .ok made) ↔
      s.world.board.Countable := recordOf_of_expected hs ⟨m, hexpected, rfl⟩ hcost
  have hdecision : s.decision name (Purchase.echo entries) =
      s.recordOf (String.ofList name) m.purchase := by
    rw [decision, hread]
    rfl
  rw [hdecision, ← hrecord]
  constructor
  · rintro ⟨made, hmade⟩
    exact ⟨some made, hmade⟩
  · rintro ⟨x, hx⟩
    obtain ⟨made, rfl⟩ := made_of_recordOf ⟨m, hexpected, rfl⟩ hx
    exact ⟨made, hx⟩

/-- A map on which Red can pay for one unit of any of three types. -/
def hangar : MapRecord :=
  armory |>.addCost "artillery" 4 |>.addCost "aaGun" 4

def parts : List (String × UInt32) := [("infantry", 0), ("infantry", 1)]

def rifleman : Purchase := (∅ : Purchase).insert "infantry" 1

theorem amount_parts (unit : String) :
    Purchase.amount unit parts = (rifleman.getD unit 0).toNat := by
  simp only [rifleman, Std.ExtTreeMap.getD_insert, Std.ExtTreeMap.getD_empty, parts,
    Purchase.amount, List.map_cons, List.map_nil, compare_eq_iff_eq]
  by_cases h : "infantry" = unit <;> simp [h]

theorem decision_echo_parts : ∃ w rs s m, World.ofRecord hangar = .ok w ∧
    run .random [buying] (.new w notes .empty 0) = .ok (rs, s) ∧
    (PurchaseMove.legal w "Red" = .ok s.purchases ∧ m ∈ s.purchases ∧
      (∀ e ∈ parts, Legible e.1) ∧ (∀ e ∈ parts, e.1 ∈ m.purchase) ∧
      ∀ unit, Purchase.amount unit parts = (m.purchase.getD unit 0).toNat) ∧
    Purchase.ofText (Purchase.echo parts) = .ok (some m.purchase) ∧
    ((∃ made, s.decision "Red".toList (Purchase.echo parts) = .ok (some made)) ↔
      s.world.board.Countable) := by
  obtain ⟨w, rs, s, hw, hrun, hs⟩ := exists_run .random hangar [buying] notes 0
    (fun s₀ s => decide (PurchaseMove.legal s₀.world "Red" = .ok s.purchases) &&
      s.purchases.any fun m => m.purchase = rifleman) true (by decide +kernel)
  obtain ⟨hlegal, hany⟩ := Bool.and_eq_true_iff.1 hs
  obtain ⟨m, hm, hpurchase⟩ := List.any_eq_true.1 hany
  replace hlegal : PurchaseMove.legal w "Red" = .ok s.purchases := of_decide_eq_true hlegal
  replace hpurchase : m.purchase = rifleman := of_decide_eq_true hpurchase
  have hlegible : ∀ e ∈ parts, Legible e.1 := by
    have hinfantry : Legible "infantry" :=
      .of_plain (by decide) fun c hc => by fin_cases hc <;> decide
    simp [parts, hinfantry]
  have hbought : ∀ e ∈ parts, e.1 ∈ m.purchase := by simp [parts, hpurchase, rifleman]
  have hamount (unit : String) : Purchase.amount unit parts = (m.purchase.getD unit 0).toNat :=
    hpurchase ▸ amount_parts unit
  have h := decision_echo hlegal hm hlegible hbought hamount
  exact ⟨w, rs, s, m, hw, hrun, ⟨hlegal, hm, hlegible, hbought, hamount⟩, h.1,
    h.2 _ s _ ((Numbered.new w notes .empty 0).run hrun) (run_sameSetting hrun).1 hm⟩

theorem legal_hangar : ∃ w moves, World.ofRecord hangar = .ok w ∧
    PurchaseMove.legal w "Red" = .ok moves ∧
    moves.map (·.purchase.toList) = [[("aaGun", 1)], [("artillery", 1)], [("infantry", 1)]] ∧
    w.catalog.purchasable = [("aaGun", 4), ("artillery", 4), ("infantry", 3)] := by
  have hlisted : ((World.ofRecord hangar).map fun w =>
      (((PurchaseMove.legal w "Red").map fun moves => moves.map (·.purchase.toList)).toOption,
        w.catalog.purchasable)).toOption =
      some (some [[("aaGun", 1)], [("artillery", 1)], [("infantry", 1)]],
        [("aaGun", 4), ("artillery", 4), ("infantry", 3)]) := by
    decide +kernel
  obtain ⟨w, hw, hlisted⟩ := exists_ok_of_map hlisted
  obtain ⟨hmoves, hoffers⟩ := Prod.mk.inj hlisted
  obtain ⟨moves, hlegal, hmoves⟩ := exists_ok_of_map hmoves
  exact ⟨w, moves, hw, hlegal, hmoves, hoffers⟩

/-- A capital inside a name is lost in the echo, and a unit type that is named without being bought
becomes an entry of its own. -/
theorem not_ofText_echo :
    (Purchase.ofText (Purchase.echo [("aaGun", 1)])).toOption.join.map (·.toList) =
      some [("aagun", 1)] ∧
    (Purchase.ofText (Purchase.echo [("artillery", 1), ("infantry", 0)])).toOption.join.map
        (·.toList) = some [("artillery", 1), ("infantry", 0)] ∧
    ¬ ∀ (r : MapRecord) (w : World) (player : String) (moves : List PurchaseMove)
      (m : PurchaseMove) (entries : List (String × UInt32)), World.ofRecord r = .ok w →
      PurchaseMove.legal w player = .ok moves → m ∈ moves →
      (∀ offer ∈ w.catalog.purchasable, ∀ c ∈ offer.1.toList, Text.isWord c = true) →
      (∀ e ∈ entries, e.1 ∈ w.catalog.purchasable.map Prod.fst) →
      (∀ unit, Purchase.amount unit entries = (m.purchase.getD unit 0).toNat) →
      Purchase.ofText (Purchase.echo entries) = .ok (some m.purchase) := by
  have hgun : (Purchase.ofText (Purchase.echo [("aaGun", 1)])).toOption.join.map (·.toList) =
      some [("aagun", 1)] := by
    decide +kernel
  refine ⟨hgun, by decide +kernel, fun h => ?_⟩
  obtain ⟨w, moves, hw, hlegal, hmoves, hoffers⟩ := legal_hangar
  obtain ⟨m, hm, hpurchase⟩ : ∃ m ∈ moves, m.purchase.toList = [("aaGun", 1)] := by
    have hfirst : [("aaGun", 1)] ∈ moves.map (·.purchase.toList) := by simp [hmoves]
    exact List.mem_map.1 hfirst
  have hm' : m.purchase = (∅ : Purchase).insert "aaGun" 1 := by
    rw [← Table.ofList_toList m.purchase, hpurchase]
    rfl
  have hread := h hangar w "Red" moves m [("aaGun", 1)] hw hlegal hm ?_ ?_ ?_
  · rw [hread] at hgun
    simp [Except.toOption, hpurchase] at hgun
  · have hwords :
        (w.catalog.purchasable.all fun offer => offer.1.toList.all Text.isWord) = true := by
      rw [hoffers]
      decide +kernel
    exact fun offer ho c hc => List.all_eq_true.1 (List.all_eq_true.1 hwords offer ho) c hc
  · simp [hoffers]
  · intro unit
    rw [hm']
    simp only [Std.ExtTreeMap.getD_insert, Std.ExtTreeMap.getD_empty, Purchase.amount,
      List.map_cons, List.map_nil, compare_eq_iff_eq]
    by_cases hunit : "aaGun" = unit <;> simp [hunit]

end Warboard.Session
