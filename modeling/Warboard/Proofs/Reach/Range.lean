import Warboard.Proofs.Reach.Walk

namespace Warboard.Reach

variable {ν : Type} [DecidableEq ν] {neighbors : ν → List ν} {policy : ν → Visit}
  {n steps : Nat} {layer : List (Reached ν)} {seen : List ν}

/-- Every layer is one edge farther away than the one before. -/
theorem steps_of_mem_layers {r : Reached ν}
    (hr : r ∈ layers neighbors policy n steps layer seen) :
    steps < r.steps ∧ r.steps ≤ steps + n := by
  induction n generalizing steps layer seen with
  | zero => simp [layers] at hr
  | succ n ih =>
      rw [layers_succ] at hr
      rcases List.mem_append.1 hr with hr | hr
      · have hsteps := (sweep_meets neighbors (steps + 1) layer seen).steps_eq r hr
        omega
      · have hsteps := ih hr
        omega

theorem layers_steps_le :
    (layers neighbors policy n steps layer seen).Pairwise fun r r' => r.steps ≤ r'.steps := by
  induction n generalizing steps layer seen with
  | zero => exact .nil
  | succ n ih =>
      have hmet := (sweep_meets neighbors (steps + 1) layer seen).steps_eq
      rw [layers_succ, List.pairwise_append]
      refine ⟨List.pairwise_of_forall_mem_list fun r hr r' hr' => ?_, ih, fun r hr r' hr' => ?_⟩
      · exact Nat.le_of_eq ((hmet r hr).trans (hmet r' hr').symm)
      · have hfarther := (steps_of_mem_layers hr').1
        rw [hmet r hr]
        omega

variable (neighbors policy)

/-- A search that goes on for more layers has the same layers first. -/
theorem exists_layers_add (m n steps : Nat) (layer : List (Reached ν)) (seen : List ν) :
    ∃ later, layers neighbors policy (m + n) steps layer seen =
        layers neighbors policy m steps layer seen ++ later ∧ ∀ r ∈ later, steps + m < r.steps := by
  induction m generalizing steps layer seen with
  | zero =>
      refine ⟨layers neighbors policy n steps layer seen, ?_, fun r hr => ?_⟩
      · rw [Nat.zero_add, layers, List.nil_append]
      · exact (steps_of_mem_layers hr).1
  | succ m ih =>
      obtain ⟨later, hlayers, hlater⟩ := ih (steps + 1)
        ((sweep neighbors (steps + 1) layer seen).1.filter fun r => (policy r.node).expand)
        (sweep neighbors (steps + 1) layer seen).2
      refine ⟨later, ?_, fun r hr => ?_⟩
      · rw [Nat.succ_add, layers_succ, hlayers, layers_succ, List.append_assoc]
      · have hfarther := hlater r hr
        omega

/-- With a longer range the search finds the same nodes first, in the same order and on the same
paths, and behind them only nodes out of the shorter range. -/
theorem explore_extends (start : ν) {m n : Nat} (h : m ≤ n) :
    explore neighbors policy start m <+: explore neighbors policy start n ∧
      explore neighbors policy start m =
        (explore neighbors policy start n).filter fun r => r.steps ≤ m := by
  obtain ⟨k, rfl⟩ := Nat.exists_eq_add_of_le h
  obtain ⟨later, hlayers, hlater⟩ :=
    exists_layers_add neighbors policy m k 0 [⟨start, 0, [start]⟩] [start]
  have hexplore : explore neighbors policy start (m + k) =
      explore neighbors policy start m ++ later.filter fun r => (policy r.node).record := by
    rw [explore, encounters, hlayers, List.filter_append]
    rfl
  have hnear : (explore neighbors policy start m).filter (fun r => r.steps ≤ m) =
      explore neighbors policy start m := by
    refine List.filter_eq_self.2 fun r hr => ?_
    have hle := (steps_of_mem_layers (List.mem_filter.1 hr).1).2
    simpa using hle
  have hfar :
      (later.filter fun r => (policy r.node).record).filter (fun r => r.steps ≤ m) = [] := by
    refine List.filter_eq_nil_iff.2 fun r hr => ?_
    have hlt := hlater r (List.mem_filter.1 hr).1
    simpa using hlt
  rw [hexplore, List.filter_append, hnear, hfar, List.append_nil]
  exact ⟨List.prefix_append _ _, rfl⟩

/-- A ring of five nodes, of which one can only be passed through and one ends every way. -/
def ring (v : Fin 5) : List (Fin 5) := [v + 1, v - 1]

def ringPolicy (v : Fin 5) : Visit :=
  if v = 1 then .passThrough else if v = 4 then .recordOnly else .recordAndExpand

theorem explore_extends_ring : 1 ≤ 3 ∧
    explore ring ringPolicy 0 1 <+: explore ring ringPolicy 0 3 ∧
    explore ring ringPolicy 0 1 = (explore ring ringPolicy 0 3).filter (fun r => r.steps ≤ 1) ∧
    explore ring ringPolicy 0 3 = [⟨4, 1, [0, 4]⟩, ⟨2, 2, [0, 1, 2]⟩, ⟨3, 3, [0, 1, 2, 3]⟩] := by
  obtain ⟨hfirst, hfilter⟩ := explore_extends ring ringPolicy 0 (by decide : 1 ≤ 3)
  exact ⟨by decide, hfirst, hfilter, by decide⟩

end Warboard.Reach
