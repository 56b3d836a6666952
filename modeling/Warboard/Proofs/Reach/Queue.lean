import Mathlib.Logic.Function.Iterate
import Warboard.Proofs.Reach.Walk

namespace Warboard.Reach

variable {ν : Type} (neighbors : ν → List ν) (policy : ν → Visit) (maxSteps : Nat)

/-- A search that works off one node of a queue at a time, with the nodes that it asked the policy
about so far. -/
structure Search (ν : Type) where
  queue : List (Reached ν)
  seen : List ν
  found : List (Reached ν)
  asked : List ν

namespace Search

def initial (start : ν) : Search ν := ⟨[⟨start, 0, [start]⟩], [start], [], []⟩

def record (visit : Visit) (m : Reached ν) (s : Search ν) : Search ν :=
  if visit.record then { s with found := s.found ++ [m] } else s

/-- Nodes at the range limit have nothing left to expand. -/
def enqueue (visit : Visit) (m : Reached ν) (s : Search ν) : Search ν :=
  if visit.expand ∧ m.steps < maxSteps then { s with queue := s.queue ++ [m] } else s

/-- The nodes in the order of meeting them that the search goes on from. -/
def pending (met : List (Reached ν)) : List (Reached ν) :=
  met.filter fun m => (policy m.node).expand ∧ m.steps < maxSteps

def recorded (met : List (Reached ν)) : List (Reached ν) :=
  met.filter fun m => (policy m.node).record

/-- The search after it has met some more nodes. -/
def grown (s : Search ν) (result : List (Reached ν) × List ν) : Search ν :=
  ⟨s.queue ++ pending policy maxSteps result.1, result.2, s.found ++ recorded policy result.1,
    s.asked ++ result.1.map Reached.node⟩

theorem grown_grown (s : Search ν) (met later : List (Reached ν)) (between after : List ν) :
    (s.grown policy maxSteps (met, between)).grown policy maxSteps (later, after) =
      s.grown policy maxSteps (met ++ later, after) := by
  simp [grown, pending, recorded]

theorem grown_nil (s : Search ν) : s.grown policy maxSteps ([], s.seen) = s := by
  simp [grown, pending, recorded]

theorem pending_eq {met : List (Reached ν)} {steps : Nat} (hsteps : ∀ m ∈ met, m.steps = steps)
    (hlt : steps < maxSteps) :
    pending policy maxSteps met = met.filter fun m => (policy m.node).expand := by
  apply List.filter_congr
  intro m hm
  simp [hsteps m hm, hlt]

theorem pending_eq_nil {met : List (Reached ν)} (hsteps : ∀ m ∈ met, m.steps = maxSteps) :
    pending policy maxSteps met = [] := by
  apply List.filter_eq_nil_iff.2
  intro m hm
  simp [hsteps m hm]

variable [DecidableEq ν]

def discover (r : Reached ν) (s : Search ν) (v : ν) : Search ν :=
  if v ∈ s.seen then s
  else
    let visit := policy v
    let s := { s with seen := v :: s.seen, asked := s.asked ++ [v] }
    let m : Reached ν := ⟨v, r.steps + 1, r.path ++ [v]⟩
    enqueue maxSteps visit m (record visit m s)

/-- Takes the next node from the queue. Nothing happens any more once the queue is empty. -/
def step (s : Search ν) : Search ν :=
  match s.queue with
  | [] => s
  | r :: queue =>
    if maxSteps ≤ r.steps then { s with queue := queue }
    else (neighbors r.node).foldl (discover policy maxSteps r) { s with queue := queue }

theorem discover_of_mem {s : Search ν} {v : ν} (r : Reached ν) (h : v ∈ s.seen) :
    discover policy maxSteps r s v = s := by
  rw [discover, if_pos h]

theorem discover_of_not_mem {s : Search ν} {v : ν} (r : Reached ν) (h : v ∉ s.seen) :
    discover policy maxSteps r s v =
      s.grown policy maxSteps ([⟨v, r.steps + 1, r.path ++ [v]⟩], v :: s.seen) := by
  rw [discover, if_neg h]
  by_cases hr : (policy v).record <;> by_cases he : (policy v).expand ∧ r.steps + 1 < maxSteps <;>
    simp [record, enqueue, grown, pending, recorded, hr, he]

theorem foldl_discover (r : Reached ν) (vs : List ν) (s : Search ν) :
    vs.foldl (discover policy maxSteps r) s =
      s.grown policy maxSteps (meet (r.steps + 1) r.path vs s.seen) := by
  induction vs generalizing s with
  | nil => exact (grown_nil policy maxSteps s).symm
  | cons v vs ih =>
      rw [List.foldl_cons]
      by_cases h : v ∈ s.seen
      · rw [discover_of_mem policy maxSteps r h, meet_cons_of_mem h, ih]
      · rw [discover_of_not_mem policy maxSteps r h, meet_cons_of_not_mem h, ih]
        exact grown_grown policy maxSteps s _ _ _ _

/-- The queue holds a whole layer first: the search meets what a sweep over the layer meets. -/
theorem iterate_step_layer {steps : Nat} (hlt : steps < maxSteps) (layer : List (Reached ν))
    (hsteps : ∀ r ∈ layer, r.steps = steps) (s : Search ν) :
    (step neighbors policy maxSteps)^[layer.length] { s with queue := layer ++ s.queue } =
      s.grown policy maxSteps (sweep neighbors (steps + 1) layer s.seen) := by
  induction layer generalizing s with
  | nil => exact (grown_nil policy maxSteps s).symm
  | cons r layer ih =>
      have hr : r.steps = steps := hsteps r List.mem_cons_self
      have hstep : step neighbors policy maxSteps { s with queue := r :: layer ++ s.queue } =
          { s.grown policy maxSteps (meet (steps + 1) r.path (neighbors r.node) s.seen) with
            queue := layer ++
              (s.grown policy maxSteps
                (meet (steps + 1) r.path (neighbors r.node) s.seen)).queue } := by
        rw [step]
        simp only [List.cons_append, hr, Nat.not_le.2 hlt, if_false, foldl_discover]
        simp [grown]
      rw [List.length_cons, Function.iterate_succ_apply, hstep,
        ih fun m hm => hsteps m (List.mem_cons_of_mem r hm), sweep_cons]
      exact grown_grown policy maxSteps s _ _ _ _

/-- The search empties its queue, and meets just these nodes on the way. -/
def Exhausts (s : Search ν) (met : List (Reached ν)) : Prop :=
  ∃ t done, (step neighbors policy maxSteps)^[t] s = done ∧ done.queue = [] ∧
    done.found = s.found ++ recorded policy met ∧ done.asked = s.asked ++ met.map Reached.node

theorem exhausts_nil {s : Search ν} (h : s.queue = []) : Exhausts neighbors policy maxSteps s [] :=
  ⟨0, s, rfl, h, by simp [recorded], by simp⟩

/-- A whole layer off the queue, then the rest. -/
theorem Exhausts.layer {s : Search ν} {steps : Nat} (hlt : steps < maxSteps)
    (hsteps : ∀ r ∈ s.queue, r.steps = steps) {later : List (Reached ν)}
    (h : Exhausts neighbors policy maxSteps
      (grown policy maxSteps { s with queue := [] } (sweep neighbors (steps + 1) s.queue s.seen))
      later) :
    Exhausts neighbors policy maxSteps s
      ((sweep neighbors (steps + 1) s.queue s.seen).1 ++ later) := by
  have hlayer := iterate_step_layer neighbors policy maxSteps hlt s.queue hsteps
    { s with queue := [] }
  rw [List.append_nil] at hlayer
  obtain ⟨t, done, hrun, hqueue, hfound, hasked⟩ := h
  refine ⟨t + s.queue.length, done, ?_, hqueue, ?_, ?_⟩
  · rw [Function.iterate_add_apply, hlayer, hrun]
  · rw [hfound]
    simp [grown, recorded]
  · rw [hasked]
    simp [grown]

/-- From the beginning of a layer the queue runs empty, and the nodes of the next layers are met. -/
theorem exhausts_layers (n : Nat) {steps : Nat} (hn : steps + (n + 1) = maxSteps)
    (s : Search ν) (hsteps : ∀ r ∈ s.queue, r.steps = steps) :
    Exhausts neighbors policy maxSteps s
      (layers neighbors policy (n + 1) steps s.queue s.seen) := by
  induction n generalizing steps s with
  | zero =>
      have hmet := (sweep_meets neighbors (steps + 1) s.queue s.seen).steps_eq
      rw [layers_succ]
      apply Exhausts.layer neighbors policy maxSteps (by omega) hsteps
      apply exhausts_nil
      exact pending_eq_nil policy maxSteps fun m hm => (hmet m hm).trans hn
  | succ n ih =>
      have hmet := (sweep_meets neighbors (steps + 1) s.queue s.seen).steps_eq
      have hpending := pending_eq policy maxSteps hmet (by omega)
      rw [layers_succ, ← hpending]
      apply Exhausts.layer neighbors policy maxSteps (by omega) hsteps
      apply ih (by omega)
      intro m hm
      exact hmet m (List.mem_filter.1 hm).1

theorem exhausts_initial (start : ν) :
    Exhausts neighbors policy maxSteps (initial start)
      (encounters neighbors policy start maxSteps) := by
  cases maxSteps with
  | zero => exact ⟨1, _, rfl, rfl, rfl, rfl⟩
  | succ n =>
      exact exhausts_layers neighbors policy (n + 1) n (Nat.zero_add _) (initial start)
        (by simp [initial])

end Search

variable [DecidableEq ν]

/-- The search finds exactly the nodes to record within the range, each once and at its distance.
Run as a queue, it asks the policy exactly once about every node within the range but the start. -/
theorem explore_walks (start : ν) :
    ((explore neighbors policy start maxSteps).map Reached.node).Nodup ∧
    (∀ v, v ∈ (explore neighbors policy start maxSteps).map Reached.node ↔
      v ≠ start ∧ (policy v).record ∧ ∃ k ≤ maxSteps, Walk neighbors policy start k v) ∧
    (∀ r ∈ explore neighbors policy start maxSteps,
      Walk neighbors policy start r.steps r.node ∧
        ∀ k, Walk neighbors policy start k r.node → r.steps ≤ k) ∧
    ∃ t s, (Search.step neighbors policy maxSteps)^[t] (Search.initial start) = s ∧
      s.queue = [] ∧ s.found = explore neighbors policy start maxSteps ∧ s.asked.Nodup ∧
      ∀ v, v ∈ s.asked ↔ v ≠ start ∧ ∃ k ≤ maxSteps, Walk neighbors policy start k v := by
  refine ⟨?_, ?_, ?_, ?_⟩
  · exact (encounters_nodup neighbors policy maxSteps start).sublist
      (List.filter_sublist.map Reached.node)
  · intro v
    rw [mem_explore, mem_encounters, and_assoc]
    exact and_congr_right fun _ => and_comm
  · intro r hr
    exact (frontier_initial neighbors policy start).steps_least maxSteps r
      (List.mem_filter.1 hr).1
  · obtain ⟨t, done, hrun, hqueue, hfound, hasked⟩ :=
      Search.exhausts_initial neighbors policy maxSteps start
    rw [Search.initial, List.nil_append] at hasked
    refine ⟨t, done, hrun, hqueue, hfound, ?_, ?_⟩
    · rw [hasked]
      exact encounters_nodup neighbors policy maxSteps start
    · intro v
      rw [hasked]
      exact mem_encounters neighbors policy maxSteps start v

end Warboard.Reach
