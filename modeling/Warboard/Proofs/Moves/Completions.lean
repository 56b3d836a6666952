import Mathlib
import Warboard.Moves.Purchase

namespace Warboard.Basket

/-- What the units cost together. -/
def total (picks : List Offer) : Int := (picks.map fun o => o.cost.toInt).sum

def names (picks : List Offer) : List String := picks.map Offer.unit

/-- All ways to pick `n` units within the budget, in the order of the offers. -/
def completions : List Offer → (n : Nat) → (budget : Int) → List (List Offer)
  | _, 0, _ => [[]]
  | [], _ + 1, _ => []
  | o :: offers, n + 1, budget =>
    (if o.cost.toInt ≤ budget then
      (completions (o :: offers) n (budget - o.cost.toInt)).map (o :: ·)
    else []) ++ completions offers (n + 1) budget
termination_by offers n => offers.length + n

/-- The numbers of units that the budget can pay for. -/
def sizes (offers : List Offer) (budget : Int) : List Nat :=
  match (offers.map fun o => o.cost.toInt).min? with
  | some cheapest => (List.range (budget / cheapest).toNat).map (· + 1)
  | none => []

def choices (offers : List Offer) (budget : Int) : List (List Offer) :=
  (sizes offers budget).flatMap fun n => completions offers n budget

/-- Fewer names come first, then those that are less in lexicographic order. -/
def Before (xs ys : List String) : Prop :=
  xs.length < ys.length ∨ xs.length = ys.length ∧ xs < ys

/-- Offers in the order of their names, none of them free. -/
structure Listed (offers : List Offer) : Prop where
  sorted : offers.Pairwise fun a b => a.unit < b.unit
  priced : ∀ o ∈ offers, 0 < o.cost.toInt

/-- One of the ways to pick `n` units within the budget, the units in the order of their names. -/
structure Completes (offers : List Offer) (n : Nat) (budget : Int) (picks : List Offer) : Prop where
  size : picks.length = n
  offered : ∀ o ∈ picks, o ∈ offers
  sorted : picks.Pairwise fun a b => a.unit ≤ b.unit
  affordable : total picks ≤ budget

variable {o : Offer} {offers picks : List Offer} {n : Nat} {budget : Int}

theorem total_nil : total [] = 0 := rfl

theorem total_cons (o : Offer) (picks : List Offer) :
    total (o :: picks) = o.cost.toInt + total picks := by
  rw [total, List.map_cons, List.sum_cons, total]

theorem names_cons (o : Offer) (picks : List Offer) :
    names (o :: picks) = o.unit :: names picks := rfl

theorem Listed.tail (h : Listed (o :: offers)) : Listed offers :=
  ⟨h.sorted.of_cons, fun p hp => h.priced p (List.mem_cons_of_mem o hp)⟩

theorem Listed.lt_of_mem (h : Listed (o :: offers)) {p : Offer} (hp : p ∈ offers) :
    o.unit < p.unit :=
  (List.pairwise_cons.1 h.sorted).1 p hp

theorem total_nonneg (h : ∀ o ∈ picks, 0 < o.cost.toInt) : 0 ≤ total picks := by
  induction picks with
  | nil => exact Int.le_refl 0
  | cons o picks ih =>
      have ho := h o List.mem_cons_self
      have hrest := ih fun p hp => h p (List.mem_cons_of_mem o hp)
      rw [total_cons]
      omega

theorem completions_zero (offers : List Offer) (budget : Int) :
    completions offers 0 budget = [[]] := by
  rw [completions]

theorem completions_nil (n : Nat) (budget : Int) : completions [] (n + 1) budget = [] := by
  rw [completions]

theorem mem_completions_cons : picks ∈ completions (o :: offers) (n + 1) budget ↔
    (o.cost.toInt ≤ budget ∧ ∃ rest ∈ completions (o :: offers) n (budget - o.cost.toInt),
      o :: rest = picks) ∨ picks ∈ completions offers (n + 1) budget := by
  rw [completions, List.mem_append]
  by_cases ho : o.cost.toInt ≤ budget
  · rw [if_pos ho, List.mem_map, and_iff_right ho]
  · rw [if_neg ho, List.mem_nil_iff, false_or, or_iff_right fun h => ho h.1]

theorem completes_nil_iff {n : Nat} : Completes [] n budget picks ↔
    n = 0 ∧ picks = [] ∧ 0 ≤ budget := by
  constructor
  · intro h
    have hpicks : picks = [] := List.eq_nil_iff_forall_not_mem.2 fun o ho =>
      List.not_mem_nil (h.offered o ho)
    subst hpicks
    exact ⟨h.size.symm, rfl, h.affordable⟩
  · rintro ⟨rfl, rfl, hb⟩
    exact ⟨rfl, by simp, .nil, hb⟩

theorem completes_zero_iff : Completes offers 0 budget picks ↔ picks = [] ∧ 0 ≤ budget := by
  constructor
  · intro h
    obtain rfl := List.length_eq_zero_iff.1 h.size
    exact ⟨rfl, h.affordable⟩
  · rintro ⟨rfl, hb⟩
    exact ⟨rfl, by simp, .nil, hb⟩

/-- The first pick is the first offer, or that offer is not picked at all. -/
theorem Listed.completes_cons_iff (h : Listed (o :: offers)) :
    Completes (o :: offers) (n + 1) budget picks ↔
      (o.cost.toInt ≤ budget ∧
        ∃ rest, Completes (o :: offers) n (budget - o.cost.toInt) rest ∧ o :: rest = picks) ∨
      Completes offers (n + 1) budget picks := by
  constructor
  · intro hc
    cases picks with
    | nil => exact absurd hc.size (by simp)
    | cons p rest =>
        have hsize : rest.length = n := by simpa using hc.size
        have hrest : ∀ q ∈ rest, q ∈ o :: offers := fun q hq =>
          hc.offered q (List.mem_cons_of_mem p hq)
        have hsorted := List.pairwise_cons.1 hc.sorted
        have hcost := hc.affordable
        rw [total_cons] at hcost
        by_cases hp : p = o
        · subst hp
          have hnonneg := total_nonneg fun q hq => h.priced q (hrest q hq)
          exact Or.inl ⟨by omega, rest, ⟨hsize, hrest, hsorted.2, by omega⟩, rfl⟩
        · have hmem : p ∈ offers :=
            (List.mem_cons.1 (hc.offered p List.mem_cons_self)).resolve_left hp
          refine Or.inr ⟨hc.size, ?_, hc.sorted, hc.affordable⟩
          intro q hq
          obtain rfl | hq := List.mem_cons.1 hq
          · exact hmem
          · refine (List.mem_cons.1 (hrest q hq)).resolve_left ?_
            rintro rfl
            exact absurd (hsorted.1 q hq) (not_le_of_gt (h.lt_of_mem hmem))
  · rintro (⟨-, rest, hc, rfl⟩ | hc)
    · refine ⟨by rw [List.length_cons, hc.size], ?_, ?_, ?_⟩
      · intro q hq
        obtain rfl | hq := List.mem_cons.1 hq
        · exact List.mem_cons_self
        · exact hc.offered q hq
      · refine List.pairwise_cons.2 ⟨?_, hc.sorted⟩
        intro q hq
        obtain rfl | hq := List.mem_cons.1 (hc.offered q hq)
        · exact le_refl q.unit
        · exact le_of_lt (h.lt_of_mem hq)
      · have hcost := hc.affordable
        rw [total_cons]
        omega
    · exact ⟨hc.size, fun q hq => List.mem_cons_of_mem o (hc.offered q hq), hc.sorted,
        hc.affordable⟩

theorem Listed.mem_completions (h : Listed offers) (hb : 0 ≤ budget) :
    picks ∈ completions offers n budget ↔ Completes offers n budget picks := by
  induction offers, n, budget using completions.induct generalizing picks with
  | case1 offers budget =>
      rw [completions_zero, List.mem_singleton, completes_zero_iff, and_iff_left hb]
  | case2 n budget =>
      simp [completions_nil, completes_nil_iff]
  | case3 o offers n budget ihere ilater =>
      rw [mem_completions_cons, h.completes_cons_iff, ilater h.tail hb]
      refine or_congr_left (and_congr_right fun ho => ?_)
      refine exists_congr fun rest => and_congr_left fun _ => ?_
      exact ihere h (by omega)

/-- Earlier offers come first. -/
theorem Listed.completions_increasing (h : Listed offers) (hb : 0 ≤ budget) :
    (completions offers n budget).Pairwise fun xs ys => names xs < names ys := by
  induction offers, n, budget using completions.induct with
  | case1 offers budget =>
      rw [completions_zero]
      exact List.pairwise_singleton _ _
  | case2 n budget =>
      rw [completions_nil]
      exact .nil
  | case3 o offers n budget ihere ilater =>
      rw [completions, List.pairwise_append]
      refine ⟨?_, ilater h.tail hb, ?_⟩
      · by_cases ho : o.cost.toInt ≤ budget
        · rw [if_pos ho, List.pairwise_map]
          apply (ihere h (by omega)).imp
          intro xs ys hlt
          exact List.cons_lt_cons_iff.2 (Or.inr ⟨rfl, hlt⟩)
        · rw [if_neg ho]
          exact .nil
      · intro xs hxs ys hys
        obtain ⟨rest, rfl⟩ : ∃ rest, o :: rest = xs := by
          by_cases ho : o.cost.toInt ≤ budget
          · rw [if_pos ho] at hxs
            obtain ⟨rest, -, hrest⟩ := List.mem_map.1 hxs
            exact ⟨rest, hrest⟩
          · rw [if_neg ho] at hxs
            exact absurd hxs List.not_mem_nil
        have hc := (h.tail.mem_completions hb).1 hys
        cases ys with
        | nil => exact absurd hc.size (by simp)
        | cons p ys =>
            exact List.cons_lt_cons_iff.2
              (Or.inl (h.lt_of_mem (hc.offered p List.mem_cons_self)))

theorem length_mul_le_total {cheapest : Int} (h : ∀ o ∈ picks, cheapest ≤ o.cost.toInt) :
    picks.length * cheapest ≤ total picks := by
  induction picks with
  | nil => simp [total_nil]
  | cons o picks ih =>
      have ho := h o List.mem_cons_self
      have hrest := ih fun p hp => h p (List.mem_cons_of_mem o hp)
      rw [total_cons, List.length_cons, Int.natCast_succ, Int.add_mul, Int.one_mul]
      omega

theorem mem_sizes_iff : n ∈ sizes offers budget ↔
    ∃ cheapest ∈ (offers.map fun o => o.cost.toInt).min?,
      1 ≤ n ∧ (n : Int) ≤ budget / cheapest := by
  rw [sizes]
  cases (offers.map fun o => o.cost.toInt).min? with
  | none => simp
  | some cheapest =>
      simp only [List.mem_map, List.mem_range, Option.mem_some_iff, exists_eq_left']
      constructor
      · rintro ⟨m, hm, rfl⟩
        omega
      · rintro ⟨hpos, hle⟩
        exact ⟨n - 1, by omega, by omega⟩

theorem Listed.cheapest_pos (h : Listed offers) {cheapest : Int}
    (hmin : cheapest ∈ (offers.map fun o => o.cost.toInt).min?) : 0 < cheapest := by
  obtain ⟨o, ho, rfl⟩ := List.mem_map.1 (List.min?_eq_some_iff.1 hmin).1
  exact h.priced o ho

theorem Listed.budget_nonneg (h : Listed offers) (hn : n ∈ sizes offers budget) : 0 ≤ budget := by
  obtain ⟨cheapest, hmin, hpos, hle⟩ := mem_sizes_iff.1 hn
  have hone : (1 : Int) ≤ budget / cheapest := by omega
  have hmul := (Int.le_ediv_iff_mul_le (h.cheapest_pos hmin)).1 hone
  have hcheap := h.cheapest_pos hmin
  omega

theorem Listed.mem_sizes_of_completes (h : Listed offers) (hne : picks ≠ [])
    (hc : Completes offers n budget picks) : n ∈ sizes offers budget := by
  obtain ⟨o, ho⟩ := List.exists_mem_of_ne_nil picks hne
  have hsome : ((offers.map fun o => o.cost.toInt).min?).isSome := by
    rw [List.isSome_min?_iff]
    exact List.ne_nil_of_mem (List.mem_map_of_mem (hc.offered o ho))
  obtain ⟨cheapest, hmin⟩ := Option.isSome_iff_exists.1 hsome
  have hle : ∀ p ∈ picks, cheapest ≤ p.cost.toInt := fun p hp =>
    (List.min?_eq_some_iff.1 hmin).2 _ (List.mem_map_of_mem (hc.offered p hp))
  have htotal := length_mul_le_total hle
  rw [hc.size] at htotal
  refine mem_sizes_iff.2 ⟨cheapest, hmin, ?_, ?_⟩
  · rw [← hc.size]
    exact List.length_pos_of_mem ho
  · exact (Int.le_ediv_iff_mul_le (h.cheapest_pos hmin)).2 (htotal.trans hc.affordable)

theorem Listed.mem_choices (h : Listed offers) : picks ∈ choices offers budget ↔
    picks ≠ [] ∧ Completes offers picks.length budget picks := by
  rw [choices, List.mem_flatMap]
  constructor
  · rintro ⟨n, hn, hp⟩
    have hc := (h.mem_completions (h.budget_nonneg hn)).1 hp
    obtain ⟨-, -, hpos, -⟩ := mem_sizes_iff.1 hn
    refine ⟨?_, hc.size ▸ hc⟩
    rintro rfl
    have hsize := hc.size
    rw [List.length_nil] at hsize
    omega
  · rintro ⟨hne, hc⟩
    have hn := h.mem_sizes_of_completes hne hc
    exact ⟨picks.length, hn, (h.mem_completions (h.budget_nonneg hn)).2 hc⟩

theorem sizes_increasing (offers : List Offer) (budget : Int) :
    (sizes offers budget).Pairwise (· < ·) := by
  rw [sizes]
  cases (offers.map fun o => o.cost.toInt).min? with
  | none => exact .nil
  | some cheapest =>
      rw [List.pairwise_map]
      exact List.pairwise_lt_range.imp fun hlt => Nat.succ_lt_succ hlt

theorem Listed.choices_increasing (h : Listed offers) :
    (choices offers budget).Pairwise fun xs ys => Before (names xs) (names ys) := by
  have hlength : ∀ {n xs}, n ∈ sizes offers budget → xs ∈ completions offers n budget →
      (names xs).length = n := by
    intro n xs hn hxs
    rw [names, List.length_map]
    exact ((h.mem_completions (h.budget_nonneg hn)).1 hxs).size
  rw [choices, List.pairwise_flatMap]
  constructor
  · intro n hn
    apply (h.completions_increasing (h.budget_nonneg hn)).imp_of_mem
    intro xs ys hxs hys hlt
    exact Or.inr ⟨(hlength hn hxs).trans (hlength hn hys).symm, hlt⟩
  · apply (sizes_increasing offers budget).imp_of_mem
    intro m n hm hn hlt xs hxs ys hys
    left
    rw [hlength hm hxs, hlength hn hys]
    exact hlt

end Warboard.Basket
