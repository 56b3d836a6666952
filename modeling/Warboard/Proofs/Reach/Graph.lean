import Mathlib.Combinatorics.SimpleGraph.Metric
import Warboard.Proofs.Reach.Walk

namespace Warboard.Reach

variable {ν : Type} {neighbors : ν → List ν} {policy : ν → Visit} {maxSteps : Nat} {start : ν}

/-- The search gets to a node and can go on from it exactly by the walks of the graph that it can go
on from everywhere after the start. -/
theorem walk_and_expand_iff {G : SimpleGraph ν} (hG : ∀ u v, G.Adj u v ↔ v ∈ neighbors u)
    (policy : ν → Visit) (start : ν) (k : Nat) (v : ν) :
    Walk neighbors policy start k v ∧ (policy v).expand ↔
      0 < k ∧ ∃ p : G.Walk start v, p.length = k ∧ ∀ u ∈ p.support.tail, (policy u).expand := by
  constructor
  · rintro ⟨h, hv⟩
    induction h with
    | edge hu => exact ⟨Nat.one_pos, ((hG _ _).2 hu).toWalk, rfl, by simpa using hv⟩
    | @snoc k u v hu he hmem ih =>
        obtain ⟨-, p, rfl, hp⟩ := ih he
        refine ⟨Nat.succ_pos _, p.concat ((hG u v).2 hmem), p.length_concat _, ?_⟩
        rw [p.support_concat, List.tail_append_of_ne_nil p.support_ne_nil]
        simpa [or_imp, forall_and] using ⟨hp, hv⟩
  · rintro ⟨hk, p, rfl, hp⟩
    induction p using SimpleGraph.Walk.concatRec with
    | Hnil => exact absurd hk (Nat.lt_irrefl 0)
    | @Hconcat start u v p hadj ih =>
        rw [p.support_concat, List.tail_append_of_ne_nil p.support_ne_nil] at hp
        simp only [List.mem_append, List.mem_singleton, or_imp, forall_and, forall_eq] at hp
        obtain ⟨hp, hv⟩ := hp
        have hmem := (hG u v).1 hadj
        refine ⟨?_, hv⟩
        rw [p.length_concat]
        cases hlen : p.length with
        | zero =>
            obtain rfl := SimpleGraph.Walk.eq_of_length_eq_zero hlen
            exact .edge hmem
        | succ n =>
            obtain ⟨hw, he⟩ := ih hp (hlen ▸ Nat.succ_pos n)
            exact .snoc (hlen ▸ hw) he hmem

variable [DecidableEq ν]

theorem mem_explore_iff {v : ν} :
    v ∈ (explore neighbors policy start maxSteps).map Reached.node ↔
      v ≠ start ∧ (policy v).record ∧ ∃ k ≤ maxSteps, Walk neighbors policy start k v := by
  rw [mem_explore, mem_encounters, and_assoc]
  exact and_congr_right fun _ => and_comm

theorem isLeast_steps {r : Reached ν} (hr : r ∈ explore neighbors policy start maxSteps) :
    IsLeast {k | Walk neighbors policy start k r.node} r.steps :=
  (frontier_initial neighbors policy start).steps_least maxSteps r (List.mem_filter.1 hr).1

end Warboard.Reach
