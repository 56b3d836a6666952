import Warboard.Proofs.Moves.Purchase
import Warboard.Proofs.Moves.Search
import Warboard.Proofs.Table

namespace Warboard.PurchaseSearch

variable {offers : List Offer} {placeIn : List String} {counts : List UInt32} {spent : Int64}
  {start n i : Nat} {budget : Int} {o : Offer}

section Tally

variable (hnames : (offers.map Offer.unit).Nodup)
include hnames

theorem eq_of_unit_eq {j : Nat} {p : Offer} (ho : offers[i]? = some o) (hp : offers[j]? = some p)
    (hunit : o.unit = p.unit) : i = j := by
  obtain ⟨hi, -⟩ := List.getElem?_eq_some_iff.1 ho
  refine (List.getElem?_inj (by rwa [List.length_map]) hnames).1 ?_
  rw [List.getElem?_map, List.getElem?_map, ho, hp]
  exact congrArg some hunit

variable (hcounts : counts.length = offers.length)
include hcounts

/-- The entries are the positive counts, under the names of their offers. -/
theorem getElem?_tally {unit : String} {m : UInt32} : (tally offers counts)[unit]? = some m ↔
    ∃ (i : Nat) (o : Offer), offers[i]? = some o ∧ counts[i]? = some m ∧ o.unit = unit ∧ 0 < m := by
  have hkeys : ((((offers.map Offer.unit).zip counts).filter fun e => 0 < e.2).map
      Prod.fst).Nodup := by
    have hall : (((offers.map Offer.unit).zip counts).map Prod.fst).Nodup := by
      rwa [List.map_fst_zip (by rw [List.length_map, hcounts])]
    exact hall.sublist (List.filter_sublist.map Prod.fst)
  rw [tally, Table.getElem?_ofList_eq_some_iff hkeys, List.mem_filter, List.mem_iff_getElem?]
  constructor
  · rintro ⟨⟨i, hi⟩, hpos⟩
    obtain ⟨hunit, hm⟩ := List.getElem?_zip_eq_some.1 hi
    rw [List.getElem?_map] at hunit
    obtain ⟨o, ho, rfl⟩ := Option.map_eq_some_iff.1 hunit
    exact ⟨i, o, ho, hm, rfl, of_decide_eq_true hpos⟩
  · rintro ⟨i, o, ho, hm, rfl, hpos⟩
    refine ⟨⟨i, List.getElem?_zip_eq_some.2 ⟨?_, hm⟩⟩, decide_eq_true hpos⟩
    rw [List.getElem?_map, ho]
    rfl

theorem getD_tally (ho : offers[i]? = some o) :
    (tally offers counts).getD o.unit 0 = counts.getD i 0 := by
  obtain ⟨hi, -⟩ := List.getElem?_eq_some_iff.1 ho
  have hcount := List.getElem?_eq_getElem (hcounts ▸ hi)
  rw [Std.ExtTreeMap.getD_eq_getD_getElem?, List.getD_eq_getElem?_getD, hcount]
  cases h : (tally offers counts)[o.unit]? with
  | none =>
      by_contra hne
      have hpos : 0 < counts[i] := UInt32.pos_iff_ne_zero.2 fun hzero => hne hzero.symm
      rw [(getElem?_tally hnames hcounts).2 ⟨i, o, ho, hcount, rfl, hpos⟩] at h
      cases h
  | some m =>
      obtain ⟨j, p, hp, hm, hunit, -⟩ := (getElem?_tally hnames hcounts).1 h
      obtain rfl := eq_of_unit_eq hnames ho hp hunit.symm
      rw [← hcount, hm]

theorem insert_tally (ho : offers[i]? = some o)
    (hlt : (counts.getD i 0).toNat + 1 < UInt32.size) :
    (tally offers counts).insert o.unit (counts.getD i 0 + 1) =
      tally offers (counts.modify i (· + 1)) := by
  obtain ⟨hi, -⟩ := List.getElem?_eq_some_iff.1 ho
  have hi' : i < counts.length := hcounts ▸ hi
  have hcounts' : (counts.modify i (· + 1)).length = offers.length :=
    (List.length_modify ..).trans hcounts
  ext1 unit
  rw [Table.getElem?_insert]
  by_cases hunit : o.unit = unit
  · subst hunit
    rw [if_pos rfl, eq_comm, getElem?_tally hnames hcounts']
    refine ⟨i, o, ho, by simp [hi'], rfl, ?_⟩
    rw [UInt32.lt_iff_toNat_lt, UInt32.toNat_add, UInt32.toNat_one, UInt32.toNat_zero,
      Nat.mod_eq_of_lt hlt]
    exact Nat.succ_pos _
  · rw [if_neg hunit]
    ext m
    rw [getElem?_tally hnames hcounts, getElem?_tally hnames hcounts']
    refine exists_congr fun j => exists_congr fun p => and_congr_right fun hp => ?_
    refine and_congr_left fun hm => ?_
    have hij : i ≠ j := by
      rintro rfl
      exact hunit (Option.some.inj (ho.symm.trans hp) ▸ hm.1)
    rw [List.getElem?_modify]
    simp [hij]

end Tally

/-- The move that buys a basket. -/
def ofBasket (placeIn : List String) (b : Basket) : PurchaseMove := ⟨b.purchase, b.cost, placeIn⟩

/-- The search after it has found these baskets. -/
def withBaskets (counts : List UInt32) (moves : List PurchaseMove) (placeIn : List String)
    (baskets : List Basket) : PurchaseSearch :=
  ⟨counts, moves ++ baskets.map (ofBasket placeIn)⟩

/-- What is found later comes behind what was found before, among the baskets as among the moves. -/
theorem bind_map_withBaskets {x y : Checked (List Basket)}
    {later : PurchaseSearch → Checked PurchaseSearch}
    (hlater : ∀ moves, later ⟨counts, moves⟩ = y.map (withBaskets counts moves placeIn))
    (moves : List PurchaseMove) :
    x.map (withBaskets counts moves placeIn) >>= later =
      (x >>= fun here => y.map (here ++ ·)).map (withBaskets counts moves placeIn) := by
  cases x with
  | error e => rfl
  | ok here =>
      change later ⟨counts, moves ++ here.map (ofBasket placeIn)⟩ = _
      rw [hlater]
      cases y with
      | error e => rfl
      | ok there => simp [bind, Except.bind, Except.map, withBaskets]

section Baskets

variable (hnames : (offers.map Offer.unit).Nodup)
include hnames

/-- What is picked is put into the basket, and overflows there or here alike. -/
theorem add_tally (hcounts : counts.length = offers.length) (ho : offers[i]? = some o)
    (moves : List PurchaseMove) : Basket.add ⟨tally offers counts, spent⟩ o = (do
      let s ← pick ⟨counts, moves⟩ i
      return ⟨tally offers s.counts, ← addAmount spent o.cost⟩) := by
  by_cases hlt : (counts.getD i 0).toNat + 1 < UInt32.size
  · have hadd : addQuantity (counts.getD i 0) 1 = .ok (counts.getD i 0 + 1) := if_pos hlt
    have hpick : pick ⟨counts, moves⟩ i = .ok ⟨counts.modify i (· + 1), moves⟩ :=
      pick_eq_ok_iff.2 ⟨hlt, rfl⟩
    rw [Basket.add, Purchase.add, getD_tally hnames hcounts ho, hadd, hpick]
    simp only [bind, Except.bind, pure, Except.pure, insert_tally hnames hcounts ho hlt]
  · have hadd : addQuantity (counts.getD i 0) 1 = .error .add := if_neg hlt
    rw [Basket.add, Purchase.add, getD_tally hnames hcounts ho, pick, hadd]
    rfl

/-- One turn of the loop finds the baskets that begin with the offer. -/
theorem visit_eq_map (hcounts : counts.length = offers.length) (ho : offers[i]? = some o)
    (hfill : ∀ counts spent moves, counts.length = offers.length →
      fill offers placeIn n i (budget - o.cost.toInt) spent ⟨counts, moves⟩ =
        (Basket.fill (offers.drop i) n (budget - o.cost.toInt) ⟨tally offers counts, spent⟩).map
          (withBaskets counts moves placeIn)) (moves : List PurchaseMove) :
    visit offers (fill offers placeIn n i) budget spent ⟨counts, moves⟩ i =
      (if o.cost.toInt ≤ budget then do
        Basket.fill (offers.drop i) n (budget - o.cost.toInt)
          (← Basket.add ⟨tally offers counts, spent⟩ o)
      else .ok []).map (withBaskets counts moves placeIn) := by
  by_cases hle : o.cost.toInt ≤ budget
  · rw [if_pos hle, add_tally hnames hcounts ho moves]
    simp only [visit, ho, if_neg (Int.not_lt.2 hle)]
    cases hpick : pick ⟨counts, moves⟩ i with
    | error e => rfl
    | ok s =>
        obtain ⟨-, rfl⟩ := pick_eq_ok_iff.1 hpick
        cases addAmount spent o.cost with
        | error e => rfl
        | ok c =>
            have hmore := hfill (counts.modify i (· + 1)) c moves
              ((List.length_modify ..).trans hcounts)
            simp only [bind, Except.bind, pure, Except.pure, hmore]
            cases Basket.fill (offers.drop i) n (budget - o.cost.toInt)
                ⟨tally offers (counts.modify i (· + 1)), c⟩ with
            | error e => rfl
            | ok bs =>
                simp only [Except.map, withBaskets, putBack, modify_sub_modify_add]
  · rw [visit_of_dear ho (Int.not_le.1 hle), if_neg hle]
    simp [Except.map, withBaskets]

/-- Where offers differ in their names, the search is the search for baskets, with the counts for
what is in the basket. -/
theorem fill_eq_map (hcounts : counts.length = offers.length) (moves : List PurchaseMove) :
    fill offers placeIn n start budget spent ⟨counts, moves⟩ =
      (Basket.fill (offers.drop start) n budget ⟨tally offers counts, spent⟩).map
        (withBaskets counts moves placeIn) := by
  induction n generalizing start budget spent counts moves with
  | zero =>
      rw [fill, Basket.fill]
      rfl
  | succ n ih =>
      rw [fill]
      generalize hk : offers.length - start = k
      induction k generalizing start moves with
      | zero =>
          rw [List.drop_eq_nil_of_le (by omega), Basket.fill]
          simp [Except.map, withBaskets, pure, Except.pure]
      | succ k ihk =>
          have hstart : start < offers.length := by omega
          rw [List.range'_succ, List.foldlM_cons,
            visit_eq_map hnames hcounts (List.getElem?_eq_getElem hstart) fun _ _ moves hcounts =>
              ih hcounts moves,
            List.drop_eq_getElem_cons hstart, Basket.fill_cons]
          exact bind_map_withBaskets (fun moves => ihk moves (by omega)) moves

end Baskets

theorem tally_zero (offers : List Offer) (k : Nat) : tally offers (.replicate k 0) = ∅ := by
  have hnone : (((offers.map Offer.unit).zip (List.replicate k (0 : UInt32))).filter fun e =>
      0 < e.2) = [] := by
    rw [List.filter_eq_nil_iff]
    rintro ⟨unit, m⟩ hmem
    obtain rfl := List.eq_of_mem_replicate (List.of_mem_zip hmem).2
    exact of_decide_eq_true rfl
  rw [tally, hnone]
  rfl

/-- The search size by size, each with the counts that the one before it has left behind. -/
def run (w : World) (player : String) : Checked (List PurchaseMove) :=
  let offers := w.catalog.offers
  let placeIn := w.board.factoryNames player
  let budget := (w.board.balanceOf player).toInt
  if placeIn = [] ∨ budget ≤ 0 then .ok []
  else match (offers.map fun o => o.cost.toInt).min? with
    | none => .ok []
    | some cheapest => do
      let sizes := (List.range (budget / cheapest).toNat).map (· + 1)
      let s ← sizes.foldlM (fun s n => fill offers placeIn n 0 budget 0 s)
        ⟨.replicate offers.length 0, []⟩
      return s.moves

theorem foldlM_fill_eq_map (hnames : (offers.map Offer.unit).Nodup)
    (hcounts : counts.length = offers.length) (sizes : List Nat) (moves : List PurchaseMove) :
    sizes.foldlM (fun s n => fill offers placeIn n 0 budget spent s) ⟨counts, moves⟩ =
      ((sizes.mapM fun n => Basket.fill offers n budget ⟨tally offers counts, spent⟩).map
        List.flatten).map (withBaskets counts moves placeIn) := by
  induction sizes generalizing moves with
  | nil => simp [withBaskets, Except.map, pure, Except.pure]
  | cons n sizes ih =>
      have hflatten (x : Checked (List Basket)) (y : Checked (List (List Basket))) :
          (x >>= fun bs => y >>= fun bss => pure (bs :: bss)).map List.flatten =
            x >>= fun bs => (y.map List.flatten).map (bs ++ ·) := by
        cases x <;> cases y <;> rfl
      rw [List.foldlM_cons, List.mapM_cons, fill_eq_map hnames hcounts, List.drop_zero, hflatten]
      exact bind_map_withBaskets ih moves

theorem legal_eq_run (w : World) (player : String) :
    PurchaseMove.legal w player = run w player := by
  have hlisted := w.catalog.offers_listed
  have hnames : (w.catalog.offers.map Offer.unit).Nodup :=
    List.pairwise_map.2 (hlisted.sorted.imp fun hlt => ne_of_lt hlt)
  rw [run]
  cases hplaces : w.board.factoryNames player with
  | nil => rw [PurchaseMove.legal_of_no_factory hplaces, if_pos (Or.inl rfl)]
  | cons place places =>
      cases hmin : (w.catalog.offers.map fun o => o.cost.toInt).min? with
      | none => simp [PurchaseMove.legal, hplaces, hmin]
      | some cheapest =>
          simp only [PurchaseMove.legal, hplaces, hmin]
          split
          · rename_i hbroke
            have hbudget : (w.board.balanceOf player).toInt ≤ 0 := by simpa using hbroke
            have hnone : (w.board.balanceOf player).toInt / cheapest ≤ 0 :=
              Int.ediv_le_of_le_mul (hlisted.cheapest_pos hmin) (by omega)
            rw [Int.toNat_of_nonpos hnone]
            rfl
          · rw [foldlM_fill_eq_map hnames (List.length_replicate ..), tally_zero, Basket.empty]
            generalize List.mapM (m := Checked) _ _ = baskets
            cases baskets with
            | error e => rfl
            | ok bs => rfl

theorem toInt_cost_completed {picks : List Nat}
    (h : FitsAmount (spent.toInt + total offers picks)) :
    (completed offers placeIn counts spent picks).cost.toInt =
      spent.toInt + total offers picks := by
  rw [completed, Int64.toInt_add, Int64.toInt_ofInt, Int.add_bmod_bmod]
  exact bmod_size_of_fitsAmount h

/-- A call of the search that all moves are found by puts back what it has picked, and adds one move
for each completion of what was picked before, in lexicographic order. It has no result only if a
count or a cost overflows on the way. -/
theorem fill_enumerates (hpriced : ∀ o ∈ offers, 0 < o.cost.toInt)
    (hcounts : counts.length = offers.length) (hb : 0 ≤ budget) (placeIn : List String)
    (spent : Int64) (start n : Nat) (moves : List PurchaseMove) :
    (∀ w player, PurchaseMove.legal w player = run w player) ∧
      ((∃ s, fill offers placeIn n start budget spent ⟨counts, moves⟩ = .ok s) ↔
        Fits offers counts spent start n budget) ∧
      (Fits offers counts spent start n budget → ∃ found : List (List Nat),
        fill offers placeIn n start budget spent ⟨counts, moves⟩ =
          .ok ⟨counts, moves ++ found.map (completed offers placeIn counts spent)⟩ ∧
        found.Pairwise (· < ·) ∧
        (∀ picks, picks ∈ found ↔ Completion offers start n budget picks) ∧
        ∀ picks ∈ found,
          (∀ i < offers.length, ((raise counts picks).getD i 0).toNat =
            (counts.getD i 0).toNat + picks.count i) ∧
          (completed offers placeIn counts spent picks).cost.toInt =
            spent.toInt + total offers picks) := by
  refine ⟨legal_eq_run, ⟨?_, fun h => ⟨_, fill_eq hpriced hcounts h moves⟩⟩, fun h => ?_⟩
  · rintro ⟨s, hs⟩
    exact fits_of_fill hpriced hcounts hs
  · refine ⟨completions offers n start budget, fill_eq hpriced hcounts h moves,
      completions_increasing offers n start budget, fun picks => mem_completions hpriced hb, ?_⟩
    intro picks hpicks
    obtain ⟨hcount, hamount⟩ := h n (le_refl n) picks ((mem_completions hpriced hb).1 hpicks)
    exact ⟨fun i hi => toNat_raise (hcount i hi) (hcounts ▸ hi), toInt_cost_completed hamount⟩

def armoury : List Offer := [⟨"armour", 5⟩, ⟨"infantry", 3⟩]

/-- Armour is picked once already. Of two more units for eight, one at most can be armour. -/
theorem fill_enumerates_armoury : ∃ found : List (List Nat),
    fill armoury ["Moscow"] 2 0 8 5 ⟨[1, 0], []⟩ =
        .ok ⟨[1, 0], found.map (completed armoury ["Moscow"] [1, 0] 5)⟩ ∧
      [0, 1] ∈ found ∧ [0, 0] ∉ found := by
  have hpriced : ∀ o ∈ armoury, 0 < o.cost.toInt := by decide
  have hcounts : ([1, 0] : List UInt32).length = armoury.length := rfl
  have hb : (0 : Int) ≤ 8 := by decide
  obtain ⟨-, hok, hall⟩ := fill_enumerates hpriced hcounts hb ["Moscow"] 5 0 2 []
  obtain ⟨found, hfill, -, hmem, -⟩ := hall (hok.1 ⟨_, rfl⟩)
  refine ⟨found, hfill, (hmem _).2 ⟨rfl, by decide, by decide, by decide⟩, fun h => ?_⟩
  have hdear : ¬ total armoury [0, 0] ≤ 8 := by decide
  exact hdear ((hmem _).1 h).affordable

end Warboard.PurchaseSearch
