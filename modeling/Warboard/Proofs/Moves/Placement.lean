import Warboard.Moves.Placement
import Warboard.Proofs.Moves.Purchase

namespace Warboard.Placement

/-- The last `n` digits of `i`, the most significant first. -/
def digitsOf (base : Nat) : (n : Nat) → (i : Nat) → List Nat
  | 0, _ => []
  | n + 1, i => i / base ^ n % base :: digitsOf base n i

/-- Turns the last digit one further. A digit that goes back to zero turns the one before it, and the
result says whether the first digit went back to zero too. -/
def turn (base : Nat) : List Nat → Bool × List Nat
  | [] => (true, [])
  | d :: choice => match turn base choice with
    | (false, choice) => (false, d :: choice)
    | (true, choice) => if d + 1 < base then (false, (d + 1) :: choice) else (true, 0 :: choice)

/-- All choices until every digit is back at zero; none if that takes more turns. -/
def rounds (base : Nat) : (turns : Nat) → List Nat → Option (List (List Nat))
  | 0, _ => none
  | turns + 1, choice => match turn base choice with
    | (true, _) => some [choice]
    | (false, next) => (rounds base turns next).map (choice :: ·)

/-- Each entry of the pool goes to the factory with the number chosen for it, and is left out if
there is no such factory. -/
def ofChoice (factories : List String) (pool : List (String × UInt32)) (choice : List Nat) :
    List Placement :=
  (pool.zip choice).filterMap fun ((unit, n), c) => factories[c]?.map fun target => ⟨unit, target, n⟩

theorem digitsOf_zero (base n : Nat) : digitsOf base n 0 = List.replicate n 0 := by
  induction n with
  | zero => rfl
  | succ n ih => rw [digitsOf, ih, Nat.zero_div, Nat.zero_mod, List.replicate_succ]

theorem range_mul (a b : Nat) :
    List.range (a * b) = (List.range a).flatMap fun q => (List.range b).map (q * b + ·) := by
  induction a with
  | zero => simp
  | succ a ih => rw [Nat.succ_mul, List.range_add, ih, List.range_succ, List.flatMap_append,
      List.flatMap_singleton]

section Choice

variable {base : Nat} (hbase : 0 < base)

include hbase

theorem digitsOf_mul_add (n q i : Nat) : digitsOf base n (q * base ^ n + i) = digitsOf base n i := by
  induction n generalizing q with
  | zero => rfl
  | succ n ih =>
      have hpow : 0 < base ^ n := Nat.pow_pos hbase
      have hq : q * base ^ (n + 1) = q * base * base ^ n := by ring
      have hfirst : (q * base * base ^ n + i) / base ^ n % base = i / base ^ n % base := by
        rw [Nat.mul_comm _ (base ^ n), Nat.mul_add_div hpow, Nat.mul_add_mod_self_right]
      rw [digitsOf, digitsOf, hq, ih, hfirst]

theorem add_one_mod (a : Nat) :
    (a + 1) % base = if a % base + 1 < base then a % base + 1 else 0 := by
  have hlt : a % base < base := Nat.mod_lt a hbase
  rw [← Nat.mod_add_mod]
  split
  · rename_i h
    exact Nat.mod_eq_of_lt h
  · rw [show a % base + 1 = base by omega, Nat.mod_self]

/-- One turn takes the digits of a number to those of the next. -/
theorem turn_digitsOf (n i : Nat) :
    turn base (digitsOf base n i) = (decide ((i + 1) % base ^ n = 0), digitsOf base n (i + 1)) := by
  induction n with
  | zero => simp [digitsOf, turn, Nat.mod_one]
  | succ n ih =>
      have hpow : 0 < base ^ n := Nat.pow_pos hbase
      have hback : (i + 1) % base ^ (n + 1) = 0 ↔
          (i + 1) % base ^ n = 0 ∧ (i + 1) / base ^ n % base = 0 := by
        rw [Nat.pow_succ, Nat.mod_mul, Nat.add_eq_zero_iff, Nat.mul_eq_zero,
          or_iff_right (Nat.ne_of_gt hpow)]
      rw [digitsOf, turn, ih, digitsOf]
      simp only [hback]
      by_cases hlast : (i + 1) % base ^ n = 0
      · rw [Nat.succ_div_of_dvd (Nat.dvd_of_mod_eq_zero hlast), add_one_mod hbase]
        by_cases hd : i / base ^ n % base + 1 < base <;> simp [hlast, hd]
      · rw [Nat.succ_div_of_not_dvd (mt Nat.mod_eq_zero_of_dvd hlast)]
        simp [hlast]

/-- The loop goes through the digits of all numbers that are left. -/
theorem rounds_digitsOf (n i left : Nat) (h : i + (left + 1) = base ^ n) :
    rounds base (left + 1) (digitsOf base n i) =
      some ((List.range' i (left + 1)).map (digitsOf base n)) := by
  induction left generalizing i with
  | zero =>
      have hback : (i + 1) % base ^ n = 0 := by rw [h, Nat.mod_self]
      simp [rounds, turn_digitsOf hbase, hback]
  | succ left ih =>
      have hon : (i + 1) % base ^ n ≠ 0 := by
        rw [Nat.mod_eq_of_lt (by omega)]
        omega
      rw [rounds, turn_digitsOf hbase, decide_eq_false hon]
      simp only [ih (i + 1) (by omega), Option.map_some, List.range'_succ, List.map_cons]

theorem rounds_zeros (n : Nat) :
    rounds base (base ^ n) (List.replicate n 0) =
      some ((List.range (base ^ n)).map (digitsOf base n)) := by
  have hpow : 0 < base ^ n := Nat.pow_pos hbase
  have h := rounds_digitsOf hbase n 0 (base ^ n - 1) (by omega)
  rwa [Nat.sub_add_cancel hpow, digitsOf_zero, ← List.range_eq_range'] at h

/-- The numbers of `n + 1` digits in order: one first digit after the other, and behind each all
numbers of `n` digits. -/
theorem map_digitsOf_succ (n : Nat) :
    (List.range (base ^ (n + 1))).map (digitsOf base (n + 1)) =
      (List.range base).flatMap fun d =>
        ((List.range (base ^ n)).map (digitsOf base n)).map (d :: ·) := by
  have hpow : 0 < base ^ n := Nat.pow_pos hbase
  rw [Nat.pow_succ', range_mul, List.map_flatMap]
  refine List.flatMap_congr fun d hd => ?_
  rw [List.map_map, List.map_map]
  refine List.map_congr_left fun i hi => ?_
  have hfirst : (d * base ^ n + i) / base ^ n % base = d := by
    rw [Nat.mul_comm, Nat.mul_add_div hpow, Nat.div_eq_of_lt (List.mem_range.1 hi), Nat.add_zero,
      Nat.mod_eq_of_lt (List.mem_range.1 hd)]
  rw [Function.comp_apply, Function.comp_apply, digitsOf, digitsOf_mul_add hbase, hfirst]

end Choice

theorem ofChoice_cons (factories : List String) (unit : String) (n : UInt32)
    (pool : List (String × UInt32)) (c : Nat) (choice : List Nat) :
    ofChoice factories ((unit, n) :: pool) (c :: choice) =
      (factories[c]?.map fun target => ⟨unit, target, n⟩).toList ++ ofChoice factories pool choice := by
  cases h : factories[c]? <;> simp [ofChoice, h]

theorem flatMap_range_getElem? {α β : Type} (l : List α) (f : Option α → List β) :
    (List.range l.length).flatMap (fun i => f l[i]?) = l.flatMap fun a => f (some a) := by
  induction l with
  | nil => rfl
  | cons a l ih =>
      rw [List.length_cons, List.range_succ_eq_map, List.flatMap_cons, List.flatMap_map]
      simp only [List.getElem?_cons_zero, List.getElem?_cons_succ, ih, List.flatMap_cons]

/-- The assignments are what the choices say, in the order of the numbers that the choices are the
digits of. -/
theorem assignments_eq (factories : List String) (pool : List (String × UInt32)) :
    assignments factories pool =
      ((List.range ((factories.length + 1) ^ pool.length)).map
        (digitsOf (factories.length + 1) pool.length)).map (ofChoice factories pool) := by
  induction pool with
  | nil => rfl
  | cons entry pool ih =>
      obtain ⟨unit, n⟩ := entry
      let placed (target : Option String) : List (List Placement) :=
        (assignments factories pool).map
          ((target.map fun target => (⟨unit, target, n⟩ : Placement)).toList ++ ·)
      have hrest : factories[factories.length]? = none := List.getElem?_eq_none (le_refl _)
      calc assignments factories ((unit, n) :: pool)
        _ = factories.flatMap (fun target => placed (some target)) ++ placed none := by
          simp [assignments, placed]
        _ = (List.range (factories.length + 1)).flatMap fun d => placed factories[d]? := by
          rw [List.range_succ, List.flatMap_append, flatMap_range_getElem?, List.flatMap_singleton,
            hrest]
        _ = _ := by
          rw [List.length_cons, map_digitsOf_succ (Nat.succ_pos _), List.map_flatMap]
          refine List.flatMap_congr fun d _ => ?_
          simp only [placed, ih, List.map_map, Function.comp_def, ofChoice_cons]

/-- The entries of the player's pool that have units, in name order. -/
def pending (w : World) (player : String) : List (String × UInt32) :=
  (w.board.unplacedOf player).toList.filter fun (_, n) => 0 < n

theorem pending_sorted (w : World) (player : String) :
    (pending w player).Pairwise fun a b => a.1 < b.1 :=
  (Std.ExtTreeMap.ordered_keys_toList.imp compare_lt_iff_lt.1).filter _

theorem mem_pending {w : World} {player unit : String} {n : UInt32} :
    (unit, n) ∈ pending w player ↔ (w.board.unplacedOf player)[unit]? = some n ∧ 0 < n := by
  rw [pending, List.mem_filter, Std.ExtTreeMap.mem_toList_iff_getElem?_eq_some, decide_eq_true_iff]

theorem eq_pending {w : World} {player : String} {pool : List (String × UInt32)}
    (hsorted : pool.Pairwise fun a b => a.1 < b.1)
    (hpool : ∀ unit n, (unit, n) ∈ pool ↔ (w.board.unplacedOf player)[unit]? = some n ∧ 0 < n) :
    pool = pending w player := by
  have hirrefl : Std.Irrefl fun a b : String × UInt32 => a.1 < b.1 := ⟨fun a => lt_irrefl a.1⟩
  have hantisymm : Std.Antisymm fun a b : String × UInt32 => a.1 < b.1 :=
    ⟨fun a b hab hba => absurd hba (lt_asymm hab)⟩
  exact hsorted.eq_of_mem_iff (pending_sorted w player) fun (unit, n) =>
    (hpool unit n).trans mem_pending.symm

theorem legal_eq {w : World} {player : String} (hfactories : w.board.factoryNames player ≠ [])
    (hpending : pending w player ≠ []) :
    legal w player = assignments (w.board.factoryNames player) (pending w player) := by
  obtain ⟨target, targets, hfactories⟩ := List.exists_cons_of_ne_nil hfactories
  obtain ⟨entry, entries, hpending⟩ := List.exists_cons_of_ne_nil hpending
  rw [legal, hfactories, hpending]
  rw [pending] at hpending
  simp only [hpending]

theorem legal_eq_nil {w : World} {player : String}
    (h : w.board.factoryNames player = [] ∨ pending w player = []) : legal w player = [] := by
  rw [legal]
  rcases h with h | h
  · rw [h]
  · rw [pending] at h
    simp only [h]
    cases w.board.factoryNames player <;> rfl

/-- The placements of a player with `k` factories and `n` entries of the pool that have units are the
table of all assignments: there are `(k + 1) ^ n`, and the `i`-th is read off the digits of `i` to the
base `k + 1`. They are what the loop lists that starts with all digits at zero and turns them until
they are back there. -/
theorem legal_table (w : World) (player : String) {factories : List String}
    (hfactories : factories =
      (w.board.territories.filter fun t => t.hasFactory player).map Territory.name)
    {pool : List (String × UInt32)} (hsorted : pool.Pairwise fun a b => a.1 < b.1)
    (hpool : ∀ unit n, (unit, n) ∈ pool ↔ (w.board.unplacedOf player)[unit]? = some n ∧ 0 < n) :
    (factories = [] ∨ pool = [] → legal w player = []) ∧
    (factories ≠ [] → pool ≠ [] →
      (rounds (factories.length + 1) ((factories.length + 1) ^ pool.length)
          (List.replicate pool.length 0)).map (List.map (ofChoice factories pool)) =
        some (legal w player) ∧
      (legal w player).length = (factories.length + 1) ^ pool.length ∧
      ∀ i < (factories.length + 1) ^ pool.length, (legal w player)[i]? =
        some (ofChoice factories pool (digitsOf (factories.length + 1) pool.length i))) := by
  rw [← Board.factoryNames_eq] at hfactories
  obtain rfl := eq_pending hsorted hpool
  subst hfactories
  refine ⟨legal_eq_nil, fun hsome hmore => ?_⟩
  rw [legal_eq hsome hmore, assignments_eq, rounds_zeros (Nat.succ_pos _), Option.map_some]
  refine ⟨rfl, by simp, fun i hi => ?_⟩
  simp [hi]

/-- Two territories with a factory of one player, who has a tank and two men to place. -/
def depot : World :=
  let armed (name : String) : Territory :=
    ⟨name, "Red", [⟨⟨"factory", "Red"⟩, 1, .fresh⟩], false, false, ∅⟩
  let pool : Table UInt32 := ((∅ : Table UInt32).insert "tank" 1).insert "fighter" 0
  let pool := pool.insert "infantry" 2
  let b : Board := ⟨[armed "Ural", armed "Kongo"], .ofList [("Red", Owner.mk "Red" 0 pool none)]⟩
  ⟨∅, b, b, none, 1⟩

theorem pending_depot : pending depot "Red" = [("infantry", 2), ("tank", 1)] := by decide +kernel

theorem legal_table_depot :
    (["Ural", "Kongo"] = (depot.board.territories.filter fun t => t.hasFactory "Red").map
        Territory.name ∧
      (pending depot "Red").Pairwise (fun a b => a.1 < b.1) ∧
      ∀ unit n, (unit, n) ∈ pending depot "Red" ↔
        (depot.board.unplacedOf "Red")[unit]? = some n ∧ 0 < n) ∧
    (legal depot "Red").length = 9 ∧
      (legal depot "Red")[5]? = some [⟨"infantry", "Kongo", 2⟩] := by
  have hfactories : ["Ural", "Kongo"] =
      (depot.board.territories.filter fun t => t.hasFactory "Red").map Territory.name := by
    decide +kernel
  have hpool : ∀ unit n, (unit, n) ∈ pending depot "Red" ↔
      (depot.board.unplacedOf "Red")[unit]? = some n ∧ 0 < n := fun unit n => mem_pending
  obtain ⟨-, hsome⟩ := legal_table depot "Red" hfactories (pending_sorted depot "Red") hpool
  obtain ⟨-, hlength, hget⟩ := hsome (by simp) (by simp [pending_depot])
  refine ⟨⟨hfactories, pending_sorted depot "Red", hpool⟩, ?_, ?_⟩
  · rw [hlength, pending_depot]
    rfl
  · rw [hget 5 (by rw [pending_depot]; decide), pending_depot]
    rfl

end Warboard.Placement
