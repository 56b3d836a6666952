import Warboard.Proofs.Checked
import Warboard.Proofs.Moves.Completions

namespace Warboard.Purchase

/-- The names of the single units, in order. -/
def units (p : Purchase) : List String :=
  p.toList.flatMap fun (unit, n) => List.replicate n.toNat unit

/-- No entry says that nothing is bought. -/
def Proper (p : Purchase) : Prop := ∀ unit : String, p[unit]? ≠ some 0

variable (p : Purchase)

theorem toList_increasing : p.toList.Pairwise fun a b => a.1 < b.1 :=
  Std.ExtTreeMap.ordered_keys_toList.imp compare_lt_iff_lt.1

theorem units_sorted : p.units.Pairwise (· ≤ ·) := by
  rw [units, List.pairwise_flatMap]
  constructor
  · intro entry _
    exact List.pairwise_replicate.2 (Or.inr (le_refl entry.1))
  · apply p.toList_increasing.imp
    intro a b hlt u hu v hv
    rw [List.eq_of_mem_replicate hu, List.eq_of_mem_replicate hv]
    exact le_of_lt hlt

theorem count_replicates_of_forall_ne {entries : List (String × UInt32)} {unit : String}
    (h : ∀ e ∈ entries, e.1 ≠ unit) :
    (entries.flatMap fun (u, n) => List.replicate n.toNat u).count unit = 0 := by
  rw [List.count_eq_zero]
  intro hmem
  obtain ⟨e, he, hu⟩ := List.mem_flatMap.1 hmem
  exact h e he (List.eq_of_mem_replicate hu).symm

theorem count_replicates_of_mem {entries : List (String × UInt32)}
    (hsorted : entries.Pairwise fun a b => a.1 < b.1) {unit : String} {n : UInt32}
    (h : (unit, n) ∈ entries) :
    (entries.flatMap fun (u, n) => List.replicate n.toNat u).count unit = n.toNat := by
  induction entries with
  | nil => exact absurd h List.not_mem_nil
  | cons e entries ih =>
      obtain ⟨hhead, htail⟩ := List.pairwise_cons.1 hsorted
      rw [List.flatMap_cons, List.count_append]
      obtain rfl | h := List.mem_cons.1 h
      · rw [List.count_replicate_self,
          count_replicates_of_forall_ne fun d hd => (ne_of_lt (hhead d hd)).symm, Nat.add_zero]
      · rw [List.count_replicate, if_neg (by simpa using ne_of_lt (hhead _ h)), Nat.zero_add,
          ih htail h]

theorem count_units (unit : String) : p.units.count unit = (p.getD unit 0).toNat := by
  rw [units, Std.ExtTreeMap.getD_eq_getD_getElem?]
  cases h : p[unit]? with
  | none =>
      apply count_replicates_of_forall_ne
      rintro ⟨u, n⟩ he rfl
      rw [Std.ExtTreeMap.mem_toList_iff_getElem?_eq_some, h] at he
      cases he
  | some n =>
      exact count_replicates_of_mem p.toList_increasing
        (Std.ExtTreeMap.mem_toList_iff_getElem?_eq_some.2 h)

theorem sum_units (f : String → Int) :
    (p.units.map f).sum = (p.toList.map fun (unit, n) => f unit * n.toNat).sum := by
  rw [units]
  induction p.toList with
  | nil => rfl
  | cons e entries ih =>
      rw [List.flatMap_cons, List.map_append, List.sum_append, ih, List.map_cons, List.sum_cons,
        List.map_replicate, List.sum_replicate_int, Int.mul_comm]

end Warboard.Purchase

namespace Warboard.Basket

/-- Puts in one unit without regard to overflow. -/
def plus (b : Basket) (o : Offer) : Basket :=
  ⟨b.purchase.insert o.unit (b.purchase.getD o.unit 0 + 1), b.cost + o.cost⟩

def extend (b : Basket) (picks : List Offer) : Basket := picks.foldl plus b

/-- The basket can take `n` more units for the budget at most. -/
structure Room (b : Basket) (n : Nat) (budget : Int) : Prop where
  count : ∀ unit, (b.purchase.getD unit 0).toNat + n < UInt32.size
  cost : b.cost.toInt + budget ≤ Int64.maxValue.toInt

variable {b : Basket} {o : Offer} {offers picks : List Offer} {n : Nat} {budget : Int}

theorem Room.count_plus (h : Room b (n + 1) budget) (unit : String) :
    ((b.plus o).purchase.getD unit 0).toNat =
      (b.purchase.getD unit 0).toNat + if o.unit = unit then 1 else 0 := by
  have hcount := h.count o.unit
  rw [plus, Std.ExtTreeMap.getD_insert]
  by_cases hu : o.unit = unit
  · subst hu
    rw [if_pos rfl, if_pos (by simp), UInt32.toNat_add, UInt32.toNat_one]
    exact Nat.mod_eq_of_lt (Nat.lt_of_le_of_lt (by omega) hcount)
  · rw [if_neg hu, if_neg (by simpa using hu), Nat.add_zero]

theorem Room.cost_plus (h : Room b n budget) (hpos : 0 < o.cost.toInt)
    (hle : o.cost.toInt ≤ budget) : (b.plus o).cost.toInt = b.cost.toInt + o.cost.toInt := by
  have hcost := h.cost
  have hmin := (fitsAmount_toInt b.cost).1
  exact toInt_add_of_fitsAmount ⟨by omega, by omega⟩

theorem Room.plus (h : Room b (n + 1) budget) (hpos : 0 < o.cost.toInt)
    (hle : o.cost.toInt ≤ budget) : Room (b.plus o) n (budget - o.cost.toInt) := by
  constructor
  · intro unit
    have hcount := h.count unit
    rw [h.count_plus]
    split <;> omega
  · have hcost := h.cost
    rw [h.cost_plus hpos hle]
    omega

theorem Room.add_eq (h : Room b (n + 1) budget) (hpos : 0 < o.cost.toInt)
    (hle : o.cost.toInt ≤ budget) : b.add o = .ok (b.plus o) := by
  have hquantity : b.purchase.add o.unit 1 = .ok (b.plus o).purchase := by
    have hcount := h.count_plus (o := o) o.unit
    rw [if_pos rfl, Basket.plus, Std.ExtTreeMap.getD_insert_self] at hcount
    rw [Purchase.add, addQuantity_eq_ok_iff.2 hcount]
    rfl
  have hcost : addAmount b.cost o.cost = .ok (b.plus o).cost :=
    addAmount_eq_ok_iff.2 (h.cost_plus hpos hle)
  rw [add, hquantity, hcost]
  rfl

/-- The baskets with more of the first offer, and behind them those without. -/
theorem fill_cons (o : Offer) (offers : List Offer) (n : Nat) (budget : Int) (b : Basket) :
    fill (o :: offers) (n + 1) budget b =
      (if o.cost.toInt ≤ budget then do
        fill (o :: offers) n (budget - o.cost.toInt) (← b.add o)
      else .ok []) >>= fun here => (fill offers (n + 1) budget b).map (here ++ ·) := by
  rw [fill]
  split
  · exact (bind_assoc ..).symm
  · rfl

/-- Nothing overflows as long as there is room: the baskets are those of the completions. -/
theorem Room.fill_eq (h : Room b n budget) (hpos : ∀ o ∈ offers, 0 < o.cost.toInt) :
    fill offers n budget b = .ok ((completions offers n budget).map b.extend) := by
  induction offers, n, budget using completions.induct generalizing b with
  | case1 offers budget =>
      rw [fill, completions_zero]
      rfl
  | case2 n budget =>
      rw [fill, completions_nil]
      rfl
  | case3 o offers n budget ihere ilater =>
      have ho := hpos o List.mem_cons_self
      rw [fill, completions, List.map_append]
      rw [ilater h fun p hp => hpos p (List.mem_cons_of_mem o hp)]
      by_cases hle : o.cost.toInt ≤ budget
      · rw [if_pos hle, if_pos hle, h.add_eq ho hle]
        have hhere := ihere (h.plus ho hle) hpos
        simp only [bind, Except.bind, hhere, pure, Except.pure, List.map_map]
        rfl
      · rw [if_neg hle, if_neg hle]
        rfl

/-- What the rest of the picks finds after the first. -/
theorem Room.rest (h : Room b (o :: picks).length budget)
    (hpos : ∀ p ∈ o :: picks, 0 < p.cost.toInt) (hle : total (o :: picks) ≤ budget) :
    o.cost.toInt ≤ budget ∧ Room (b.plus o) picks.length (budget - o.cost.toInt) ∧
      total picks ≤ budget - o.cost.toInt := by
  have hrest : ∀ p ∈ picks, 0 < p.cost.toInt := fun p hp => hpos p (List.mem_cons_of_mem o hp)
  have hnonneg := total_nonneg hrest
  rw [total_cons] at hle
  have ho : o.cost.toInt ≤ budget := by omega
  exact ⟨ho, h.plus (hpos o List.mem_cons_self) ho, by omega⟩

theorem Room.count_extend (h : Room b picks.length budget) (hpos : ∀ o ∈ picks, 0 < o.cost.toInt)
    (hle : total picks ≤ budget) (unit : String) :
    ((b.extend picks).purchase.getD unit 0).toNat =
      (b.purchase.getD unit 0).toNat + (names picks).count unit := by
  induction picks generalizing b budget with
  | nil => rfl
  | cons o picks ih =>
      obtain ⟨-, hroom, htotal⟩ := h.rest hpos hle
      rw [extend, List.foldl_cons, ← extend, ih hroom
        (fun p hp => hpos p (List.mem_cons_of_mem o hp)) htotal, h.count_plus, names_cons,
        List.count_cons]
      simp only [beq_iff_eq]
      omega

theorem Room.cost_extend (h : Room b picks.length budget) (hpos : ∀ o ∈ picks, 0 < o.cost.toInt)
    (hle : total picks ≤ budget) : (b.extend picks).cost.toInt = b.cost.toInt + total picks := by
  induction picks generalizing b budget with
  | nil => exact (Int.add_zero _).symm
  | cons o picks ih =>
      obtain ⟨ho, hroom, htotal⟩ := h.rest hpos hle
      rw [extend, List.foldl_cons, ← extend, ih hroom
        (fun p hp => hpos p (List.mem_cons_of_mem o hp)) htotal,
        h.cost_plus (hpos o List.mem_cons_self) ho, total_cons, Int.add_assoc]

theorem Room.proper_extend (h : Room b picks.length budget)
    (hpos : ∀ o ∈ picks, 0 < o.cost.toInt) (hle : total picks ≤ budget)
    (hproper : b.purchase.Proper) : (b.extend picks).purchase.Proper := by
  induction picks generalizing b budget with
  | nil => exact hproper
  | cons o picks ih =>
      obtain ⟨-, hroom, htotal⟩ := h.rest hpos hle
      refine ih hroom (fun p hp => hpos p (List.mem_cons_of_mem o hp)) htotal ?_
      intro unit
      have hcount := h.count_plus (o := o) o.unit
      rw [if_pos rfl, Basket.plus, Std.ExtTreeMap.getD_insert_self] at hcount
      rw [Basket.plus, Std.ExtTreeMap.getElem?_insert]
      by_cases hu : compare o.unit unit = .eq
      · rw [if_pos hu]
        intro hzero
        rw [Option.some.inj hzero, UInt32.toNat_zero] at hcount
        omega
      · rw [if_neg hu]
        exact hproper unit

theorem room_empty (hn : n < UInt32.size) (hb : budget ≤ Int64.maxValue.toInt) :
    Room empty n budget := by
  constructor
  · intro unit
    rw [empty, Std.ExtTreeMap.getD_empty, UInt32.toNat_zero, Nat.zero_add]
    exact hn
  · rw [empty, Int64.toInt_zero, Int.zero_add]
    exact hb

/-- The units in the basket are those that were picked, if these were picked in order. -/
theorem units_extend_empty (h : Room empty picks.length budget)
    (hpos : ∀ o ∈ picks, 0 < o.cost.toInt) (hle : total picks ≤ budget)
    (hsorted : picks.Pairwise fun a b => a.unit ≤ b.unit) :
    (empty.extend picks).purchase.units = names picks := by
  have hperm : (empty.extend picks).purchase.units.Perm (names picks) := by
    rw [List.perm_iff_count]
    intro unit
    rw [Purchase.count_units, h.count_extend hpos hle, empty, Std.ExtTreeMap.getD_empty,
      UInt32.toNat_zero, Nat.zero_add]
  exact List.Perm.eq_of_pairwise' (Purchase.units_sorted _) (List.pairwise_map.2 hsorted) hperm

end Warboard.Basket
