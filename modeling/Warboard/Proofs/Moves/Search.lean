import Warboard.Proofs.Moves.Basket

namespace Warboard

/-- What the calls of the search share: how many units of each offer are picked, and the moves found
so far. -/
structure PurchaseSearch where
  counts : List UInt32
  moves : List PurchaseMove

namespace PurchaseSearch

/-- The entries of the offers that are picked. Of two offers with one name the later one counts. -/
def tally (offers : List Offer) (counts : List UInt32) : Purchase :=
  .ofList (((offers.map Offer.unit).zip counts).filter fun e => 0 < e.2)

def pick (s : PurchaseSearch) (i : Nat) : Checked PurchaseSearch := do
  return { s with counts := s.counts.set i (← addQuantity (s.counts.getD i 0) 1) }

def putBack (s : PurchaseSearch) (i : Nat) : PurchaseSearch :=
  { s with counts := s.counts.modify i (· - 1) }

section Loop

variable (offers : List Offer) (placeIn : List String)

/-- One turn of the loop: the offer is picked, `descend` goes on with what is left of the budget,
and the offer is put back. One that is too dear is passed over. -/
def visit (descend : Int → Int64 → PurchaseSearch → Checked PurchaseSearch) (budget : Int)
    (spent : Int64) (s : PurchaseSearch) (i : Nat) : Checked PurchaseSearch :=
  match offers[i]? with
  | none => .ok s
  | some o =>
    if budget < o.cost.toInt then .ok s
    else do
      let s ← s.pick i
      let s ← descend (budget - o.cost.toInt) (← addAmount spent o.cost) s
      return s.putBack i

/-- Adds to the moves those with `n` more units, none from before the offer `start`. -/
def fill : (n start : Nat) → (budget : Int) → (spent : Int64) → PurchaseSearch →
    Checked PurchaseSearch
  | 0, _, _, spent, s =>
    .ok { s with moves := s.moves ++ [⟨tally offers s.counts, spent, placeIn⟩] }
  | n + 1, start, budget, spent, s =>
    (List.range' start (offers.length - start)).foldlM
      (fun s i => visit offers (fill n i) budget spent s i) s

end Loop

section Picks

variable (offers : List Offer)

def price (i : Nat) : Int := (offers[i]?.map fun o => o.cost.toInt).getD 0

def total (picks : List Nat) : Int := (picks.map (price offers)).sum

/-- `n` more offers that the budget can pay for, none from before `start`, in their order. An offer
can be picked again. -/
structure Completion (start n : Nat) (budget : Int) (picks : List Nat) : Prop where
  size : picks.length = n
  offered : ∀ i ∈ picks, start ≤ i ∧ i < offers.length
  sorted : picks.Pairwise (· ≤ ·)
  affordable : total offers picks ≤ budget

/-- Counts one more for each pick. -/
def raise (counts : List UInt32) (picks : List Nat) : List UInt32 :=
  picks.foldl (fun counts i => counts.modify i (· + 1)) counts

/-- The move that the picks make of a partial choice. -/
def completed (placeIn : List String) (counts : List UInt32) (spent : Int64) (picks : List Nat) :
    PurchaseMove :=
  ⟨tally offers (raise counts picks), spent + .ofInt (total offers picks), placeIn⟩

/-- No count and no cost is too large, whichever part of a completion is picked. -/
def Fits (counts : List UInt32) (spent : Int64) (start n : Nat) (budget : Int) : Prop :=
  ∀ m ≤ n, ∀ picks, Completion offers start m budget picks →
    (∀ i < offers.length, (counts.getD i 0).toNat + picks.count i < UInt32.size) ∧
      FitsAmount (spent.toInt + total offers picks)

/-- All completions, in the order of the loop. -/
def completions : (n start : Nat) → (budget : Int) → List (List Nat)
  | 0, _, _ => [[]]
  | n + 1, start, budget => (List.range' start (offers.length - start)).flatMap fun i =>
    if price offers i ≤ budget then
      (completions n i (budget - price offers i)).map (i :: ·)
    else []

end Picks

variable {offers : List Offer} {placeIn : List String} {counts : List UInt32} {spent : Int64}
  {start n i : Nat} {budget : Int} {picks : List Nat} {o : Offer}

theorem price_eq (ho : offers[i]? = some o) : price offers i = o.cost.toInt := by
  rw [price, ho]
  rfl

theorem total_nil : total offers [] = 0 := rfl

theorem total_cons (i : Nat) (picks : List Nat) :
    total offers (i :: picks) = price offers i + total offers picks := by
  rw [total, List.map_cons, List.sum_cons, total]

section Counts

theorem getD_modify (hi : i < counts.length) (hlt : (counts.getD i 0).toNat + 1 < UInt32.size)
    (j : Nat) : ((counts.modify i (· + 1)).getD j 0).toNat =
      (counts.getD j 0).toNat + if i = j then 1 else 0 := by
  rw [List.getD_eq_getElem?_getD, List.getElem?_modify, List.getD_eq_getElem?_getD]
  by_cases hij : i = j
  · subst hij
    have hsum : (counts[i] + 1).toNat = counts[i].toNat + 1 := by
      rw [List.getD_eq_getElem counts 0 hi] at hlt
      rw [UInt32.toNat_add]
      exact Nat.mod_eq_of_lt hlt
    simpa [hi] using hsum
  · simp [hij]

theorem modify_sub_modify_add (counts : List UInt32) (i : Nat) :
    (counts.modify i (· + 1)).modify i (· - 1) = counts := by
  apply List.ext_getElem?
  intro j
  rw [List.getElem?_modify, List.getElem?_modify]
  split
  · cases counts[j]? <;> simp
  · simp

theorem set_eq_modify (counts : List UInt32) (i : Nat) :
    counts.set i (counts.getD i 0 + 1) = counts.modify i (· + 1) := by
  apply List.ext_getElem?
  intro j
  rw [List.getElem?_set, List.getElem?_modify, List.getD_eq_getElem?_getD]
  split
  · subst j
    split
    · rename_i hi
      simp [hi]
    · rename_i hi
      simp [hi]
  · simp

theorem getElem?_raise (counts : List UInt32) (picks : List Nat) (j : Nat) :
    (raise counts picks)[j]? = counts[j]?.map (· + .ofNat (picks.count j)) := by
  induction picks generalizing counts with
  | nil => simp [raise]
  | cons i picks ih =>
      change (raise (counts.modify i (· + 1)) picks)[j]? = _
      rw [ih, List.getElem?_modify, List.count_cons]
      by_cases hij : i = j
      · simp [hij, Function.comp_def, UInt32.add_assoc, UInt32.add_comm]
      · simp [hij]

theorem toNat_raise {j : Nat} (h : (counts.getD j 0).toNat + picks.count j < UInt32.size)
    (hj : j < counts.length) :
    ((raise counts picks).getD j 0).toNat = (counts.getD j 0).toNat + picks.count j := by
  rw [List.getD_eq_getElem counts 0 hj] at h ⊢
  rw [List.getD_eq_getElem?_getD, getElem?_raise, List.getElem?_eq_getElem hj, Option.map_some,
    Option.getD_some, UInt32.toNat_add, UInt32.toNat_ofNat', Nat.mod_eq_of_lt (a := picks.count j),
    Nat.mod_eq_of_lt]
  · exact h
  · exact Nat.lt_of_le_of_lt (Nat.le_add_left _ _) h

end Counts

section Completion

theorem completion_zero_iff : Completion offers start 0 budget picks ↔ picks = [] ∧ 0 ≤ budget := by
  constructor
  · intro h
    obtain rfl := List.length_eq_zero_iff.1 h.size
    exact ⟨rfl, h.affordable⟩
  · rintro ⟨rfl, hb⟩
    exact ⟨rfl, by simp, .nil, hb⟩

variable (hpriced : ∀ o ∈ offers, 0 < o.cost.toInt)
include hpriced

theorem price_pos (hi : i < offers.length) : 0 < price offers i := by
  rw [price_eq (List.getElem?_eq_getElem hi)]
  exact hpriced _ (List.getElem_mem hi)

theorem total_nonneg (h : ∀ i ∈ picks, i < offers.length) : 0 ≤ total offers picks := by
  induction picks with
  | nil => exact Int.le_refl 0
  | cons i picks ih =>
      obtain ⟨hi, hrest⟩ := List.forall_mem_cons.1 h
      have hprice := price_pos hpriced hi
      have htotal := ih hrest
      rw [total_cons]
      omega

/-- The first pick can be any that is left, and the others do not come before it. -/
theorem completion_cons_iff : Completion offers start (n + 1) budget (i :: picks) ↔
    (start ≤ i ∧ i < offers.length) ∧ price offers i ≤ budget ∧
      Completion offers i n (budget - price offers i) picks := by
  constructor
  · intro h
    obtain ⟨hi, hrest⟩ := List.forall_mem_cons.1 h.offered
    obtain ⟨hle, hsorted⟩ := List.pairwise_cons.1 h.sorted
    have htotal := h.affordable
    rw [total_cons] at htotal
    have hnonneg := total_nonneg hpriced fun j hj => (hrest j hj).2
    exact ⟨hi, by omega, Nat.succ.inj h.size, fun j hj => ⟨hle j hj, (hrest j hj).2⟩, hsorted,
      by omega⟩
  · rintro ⟨hi, hle, h⟩
    refine ⟨congrArg Nat.succ h.size, List.forall_mem_cons.2 ⟨hi, fun j hj => ?_⟩,
      List.pairwise_cons.2 ⟨fun j hj => (h.offered j hj).1, h.sorted⟩, ?_⟩
    · obtain ⟨hij, hj⟩ := h.offered j hj
      exact ⟨hi.1.trans hij, hj⟩
    · have htotal := h.affordable
      rw [total_cons]
      omega

theorem mem_completions (hb : 0 ≤ budget) :
    picks ∈ completions offers n start budget ↔ Completion offers start n budget picks := by
  induction n generalizing start budget picks with
  | zero => rw [completions, List.mem_singleton, completion_zero_iff, and_iff_left hb]
  | succ n ih =>
      rw [completions, List.mem_flatMap]
      cases picks with
      | nil =>
          refine iff_of_false ?_ fun h => Nat.succ_ne_zero n h.size.symm
          rintro ⟨i, -, hi⟩
          split at hi <;> simp at hi
      | cons i picks =>
          rw [completion_cons_iff hpriced]
          constructor
          · rintro ⟨j, hj, hmem⟩
            split at hmem
            · rename_i hle
              obtain ⟨rest, hrest, he⟩ := List.mem_map.1 hmem
              obtain ⟨rfl, rfl⟩ := List.cons.inj he
              rw [List.mem_range'_1] at hj
              exact ⟨by omega, hle, (ih (by omega)).1 hrest⟩
            · exact absurd hmem List.not_mem_nil
          · rintro ⟨hi, hle, h⟩
            refine ⟨i, List.mem_range'_1.2 (by omega), ?_⟩
            rw [if_pos hle]
            exact List.mem_map.2 ⟨picks, (ih (by omega)).2 h, rfl⟩

omit hpriced in
theorem completions_increasing (offers : List Offer) (n start : Nat) (budget : Int) :
    (completions offers n start budget).Pairwise (· < ·) := by
  induction n generalizing start budget with
  | zero => exact List.pairwise_singleton _ _
  | succ n ih =>
      rw [completions, List.pairwise_flatMap]
      constructor
      · intro i _
        split
        · rw [List.pairwise_map]
          exact (ih i _).imp fun hlt => List.cons_lt_cons_iff.2 (Or.inr ⟨rfl, hlt⟩)
        · exact .nil
      · have hrange : (List.range' start (offers.length - start)).Pairwise (· < ·) :=
          List.pairwise_lt_range' ..
        apply hrange.imp
        intro i j hij xs hxs ys hys
        split at hxs
        · split at hys
          · obtain ⟨xs, -, rfl⟩ := List.mem_map.1 hxs
            obtain ⟨ys, -, rfl⟩ := List.mem_map.1 hys
            exact List.cons_lt_cons_iff.2 (Or.inl hij)
          · exact absurd hys List.not_mem_nil
        · exact absurd hxs List.not_mem_nil

end Completion

section Fits

theorem fits_zero : Fits offers counts spent start 0 budget := by
  intro m hm picks h
  obtain rfl := Nat.le_zero.1 hm
  obtain ⟨rfl, -⟩ := completion_zero_iff.1 h
  refine ⟨fun i _ => (counts.getD i 0).toNat_lt_size, ?_⟩
  rw [total_nil, Int.add_zero]
  exact fitsAmount_toInt spent

/-- Room for one pick more is room for the pick, and behind it for those that can still be made. -/
theorem fits_succ_iff (hpriced : ∀ o ∈ offers, 0 < o.cost.toInt)
    (hcounts : counts.length = offers.length) : Fits offers counts spent start (n + 1) budget ↔
      ∀ i o, start ≤ i → offers[i]? = some o → o.cost.toInt ≤ budget →
        (counts.getD i 0).toNat + 1 < UInt32.size ∧ FitsAmount (spent.toInt + o.cost.toInt) ∧
          Fits offers (counts.modify i (· + 1)) (spent + o.cost) i n (budget - o.cost.toInt) := by
  constructor
  · intro h i o hstart ho hle
    obtain ⟨hi, -⟩ := List.getElem?_eq_some_iff.1 ho
    have hone : Completion offers start 1 budget [i] := by
      refine (completion_cons_iff hpriced).2 ⟨⟨hstart, hi⟩, ?_, completion_zero_iff.2 ⟨rfl, ?_⟩⟩ <;>
        rw [price_eq ho] <;> omega
    obtain ⟨hcount, hamount⟩ := h 1 (by omega) [i] hone
    have hlt := hcount i hi
    rw [List.count_singleton_self] at hlt
    rw [total_cons, total_nil, price_eq ho, Int.add_zero] at hamount
    refine ⟨hlt, hamount, fun m hm picks hpicks => ?_⟩
    have hmore : Completion offers start (m + 1) budget (i :: picks) := by
      rw [completion_cons_iff hpriced, price_eq ho]
      exact ⟨⟨hstart, hi⟩, hle, hpicks⟩
    obtain ⟨hcounts', hamount'⟩ := h (m + 1) (by omega) _ hmore
    rw [total_cons, price_eq ho, ← Int.add_assoc] at hamount'
    refine ⟨fun j hj => ?_, ?_⟩
    · have hj' := hcounts' j hj
      rw [getD_modify (hcounts ▸ hi) hlt]
      rw [List.count_cons] at hj'
      simp only [beq_iff_eq] at hj'
      omega
    · rwa [toInt_add_of_fitsAmount hamount]
  · intro h m hm picks hpicks
    cases picks with
    | nil =>
        obtain rfl : 0 = m := hpicks.size
        exact fits_zero 0 (le_refl 0) [] hpicks
    | cons i picks =>
        obtain ⟨m, rfl⟩ : ∃ k, m = k + 1 := ⟨picks.length, hpicks.size.symm⟩
        obtain ⟨⟨hstart, hi⟩, hle, hrest⟩ := (completion_cons_iff hpriced).1 hpicks
        have ho := List.getElem?_eq_getElem hi
        rw [price_eq ho] at hle hrest
        obtain ⟨hlt, hamount, hfits⟩ := h i _ hstart ho hle
        obtain ⟨hcounts', hamount'⟩ := hfits m (by omega) picks hrest
        refine ⟨fun j hj => ?_, ?_⟩
        · have hj' := hcounts' j hj
          rw [getD_modify (hcounts ▸ hi) hlt] at hj'
          rw [List.count_cons]
          simp only [beq_iff_eq]
          omega
        · rw [total_cons, price_eq ho, ← Int.add_assoc, ← toInt_add_of_fitsAmount hamount]
          exact hamount'

end Fits

section Visit

variable {descend : Int → Int64 → PurchaseSearch → Checked PurchaseSearch}
  {s s' : PurchaseSearch}

theorem pick_eq_ok_iff : s.pick i = .ok s' ↔ (s.counts.getD i 0).toNat + 1 < UInt32.size ∧
    { s with counts := s.counts.modify i (· + 1) } = s' := by
  by_cases hlt : (s.counts.getD i 0).toNat + 1 < UInt32.size
  · have hadd : addQuantity (s.counts.getD i 0) 1 = .ok (s.counts.getD i 0 + 1) := if_pos hlt
    rw [pick, hadd, and_iff_right hlt, ← set_eq_modify]
    exact ⟨fun h => Except.ok.inj h, fun h => congrArg Except.ok h⟩
  · have hadd : addQuantity (s.counts.getD i 0) 1 = .error .add := if_neg hlt
    rw [pick, hadd]
    exact iff_of_false (fun h => by cases h) fun h => hlt h.1

theorem addAmount_eq_ok_iff_fits {a b c : Int64} :
    addAmount a b = .ok c ↔ FitsAmount (a.toInt + b.toInt) ∧ a + b = c := by
  rw [addAmount]
  split <;> simp_all

theorem visit_of_dear (ho : offers[i]? = some o) (hlt : budget < o.cost.toInt) :
    visit offers descend budget spent s i = .ok s := by
  simp only [visit, ho, if_pos hlt]

theorem visit_eq_ok_iff (ho : offers[i]? = some o) (hle : o.cost.toInt ≤ budget) :
    visit offers descend budget spent s i = .ok s' ↔
      (s.counts.getD i 0).toNat + 1 < UInt32.size ∧ FitsAmount (spent.toInt + o.cost.toInt) ∧
        ∃ t, descend (budget - o.cost.toInt) (spent + o.cost)
          { s with counts := s.counts.modify i (· + 1) } = .ok t ∧ t.putBack i = s' := by
  simp only [visit, ho, if_neg (Int.not_lt.2 hle), Checked.bind_eq_ok_iff, pick_eq_ok_iff,
    addAmount_eq_ok_iff_fits, pure, Except.pure, Except.ok.injEq]
  constructor
  · rintro ⟨_, ⟨hlt, rfl⟩, _, ⟨hamount, rfl⟩, t, ht, rfl⟩
    exact ⟨hlt, hamount, t, ht, rfl⟩
  · rintro ⟨hlt, hamount, t, ht, rfl⟩
    exact ⟨_, ⟨hlt, rfl⟩, _, ⟨hamount, rfl⟩, t, ht, rfl⟩

/-- A turn leaves the counts as they were if what it descends to does. -/
theorem counts_of_visit (hdescend : ∀ budget spent s t, descend budget spent s = .ok t →
    t.counts = s.counts) (h : visit offers descend budget spent s i = .ok s') :
    s'.counts = s.counts := by
  cases ho : offers[i]? with
  | none =>
      simp only [visit, ho] at h
      cases h
      rfl
  | some o =>
      by_cases hle : o.cost.toInt ≤ budget
      · obtain ⟨-, -, t, ht, rfl⟩ := (visit_eq_ok_iff ho hle).1 h
        rw [putBack, hdescend _ _ _ _ ht, modify_sub_modify_add]
      · rw [visit_of_dear ho (Int.not_le.1 hle)] at h
        cases h
        rfl

theorem counts_of_fill (h : fill offers placeIn n start budget spent s = .ok s') :
    s'.counts = s.counts := by
  induction n generalizing start budget spent s s' with
  | zero =>
      cases h
      rfl
  | succ n ih =>
      rw [fill] at h
      refine Checked.foldlM_keeps (P := fun t => t.counts = s.counts) ?_ rfl h
      intro t i t' ht hvisit
      rw [counts_of_visit (fun _ _ _ _ => ih) hvisit, ht]

end Visit

/-- What each turn adds, the loop adds one after the other. -/
theorem foldlM_visit {f : PurchaseSearch → Nat → Checked PurchaseSearch}
    {g : Nat → List PurchaseMove} {is : List Nat}
    (hf : ∀ i ∈ is, ∀ moves, f ⟨counts, moves⟩ i = .ok ⟨counts, moves ++ g i⟩)
    (moves : List PurchaseMove) :
    is.foldlM f ⟨counts, moves⟩ = .ok ⟨counts, moves ++ is.flatMap g⟩ := by
  induction is generalizing moves with
  | nil => simp [pure, Except.pure]
  | cons i is ih =>
      rw [List.foldlM_cons, hf i List.mem_cons_self, List.flatMap_cons, ← List.append_assoc]
      exact ih (fun j hj => hf j (List.mem_cons_of_mem i hj)) _

theorem completed_cons (ho : offers[i]? = some o) (picks : List Nat) :
    completed offers placeIn counts spent (i :: picks) =
      completed offers placeIn (counts.modify i (· + 1)) (spent + o.cost) picks := by
  rw [completed, completed, total_cons, price_eq ho, Int64.ofInt_add, Int64.ofInt_toInt,
    ← Int64.add_assoc]
  rfl

theorem fill_eq (hpriced : ∀ o ∈ offers, 0 < o.cost.toInt)
    (hcounts : counts.length = offers.length) (h : Fits offers counts spent start n budget)
    (moves : List PurchaseMove) :
    fill offers placeIn n start budget spent ⟨counts, moves⟩ =
      .ok ⟨counts, moves ++ (completions offers n start budget).map
        (completed offers placeIn counts spent)⟩ := by
  induction n generalizing start budget spent counts moves with
  | zero =>
      have hspent : spent + Int64.ofInt (total offers []) = spent := Int64.add_zero spent
      rw [fill, completions, List.map_singleton, completed, hspent]
      rfl
  | succ n ih =>
      rw [fill, completions, List.map_flatMap]
      apply foldlM_visit
      intro i hi moves
      rw [List.mem_range'_1] at hi
      have ho := List.getElem?_eq_getElem (l := offers) (i := i) (by omega)
      rw [price_eq ho]
      by_cases hle : offers[i].cost.toInt ≤ budget
      · obtain ⟨hlt, hamount, hfits⟩ := (fits_succ_iff hpriced hcounts).1 h i _ hi.1 ho hle
        have hmore := ih (by rw [List.length_modify, hcounts]) hfits moves
        have hadded : ((completions offers n i (budget - offers[i].cost.toInt)).map (i :: ·)).map
            (completed offers placeIn counts spent) =
              (completions offers n i (budget - offers[i].cost.toInt)).map
                (completed offers placeIn (counts.modify i (· + 1)) (spent + offers[i].cost)) := by
          rw [List.map_map]
          exact List.map_congr_left fun picks _ => completed_cons ho picks
        refine (visit_eq_ok_iff ho hle).2 ⟨hlt, hamount, _, hmore, ?_⟩
        rw [putBack, modify_sub_modify_add, if_pos hle, hadded]
      · rw [visit_of_dear ho (Int.not_le.1 hle), if_neg hle, List.map_nil, List.append_nil]

theorem fits_of_fill (hpriced : ∀ o ∈ offers, 0 < o.cost.toInt)
    (hcounts : counts.length = offers.length) {moves : List PurchaseMove} {s : PurchaseSearch}
    (h : fill offers placeIn n start budget spent ⟨counts, moves⟩ = .ok s) :
    Fits offers counts spent start n budget := by
  induction n generalizing start budget spent counts moves s with
  | zero => exact fits_zero
  | succ n ih =>
      rw [fits_succ_iff hpriced hcounts]
      intro i o hstart ho hle
      obtain ⟨hi, -⟩ := List.getElem?_eq_some_iff.1 ho
      have hmem : i ∈ List.range' start (offers.length - start) := List.mem_range'_1.2 (by omega)
      rw [fill] at h
      obtain ⟨t, t', ht, hvisit⟩ := Checked.exists_step_of_foldlM
        (P := fun t => t.counts = counts)
        (fun t i t' ht hvisit => (counts_of_visit (fun _ _ _ _ => counts_of_fill) hvisit).trans ht)
        rfl h hmem
      obtain ⟨hlt, hamount, u, hu, -⟩ := (visit_eq_ok_iff ho hle).1 hvisit
      rw [ht] at hlt hu
      exact ⟨hlt, hamount, ih (by rw [List.length_modify, hcounts]) hu⟩

end PurchaseSearch

end Warboard
