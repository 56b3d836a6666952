import Mathlib.Data.List.Chain
import Mathlib.Data.List.Nodup
import Warboard.Proofs.Reach.Range

namespace Warboard.Reach

variable {ν : Type} (neighbors : ν → List ν) (policy : ν → Visit) (start : ν)

/-- The path leads from the start to the node, along one edge for each step and over no node twice,
and the search goes on through all nodes between the two ends. -/
structure Route (r : Reached ν) : Prop where
  length : r.path.length = r.steps + 1
  head : r.path.head? = some start
  last : r.path.getLast? = some r.node
  nodup : r.path.Nodup
  linked : r.path.IsChain fun u v => v ∈ neighbors u
  passes : ∀ u ∈ r.path.tail.dropLast, (policy u).expand

/-- The search comes to a layer on routes that it can leave the last node of, too. -/
structure Trails (steps : Nat) (layer : List (Reached ν)) (seen : List ν) : Prop where
  steps_eq : ∀ r ∈ layer, r.steps = steps
  route : ∀ r ∈ layer, Route neighbors policy start r
  expands : ∀ r ∈ layer, ∀ u ∈ r.path.tail, (policy u).expand
  visited : ∀ r ∈ layer, ∀ u ∈ r.path, u ∈ seen

theorem trails_initial : Trails neighbors policy start 0 [⟨start, 0, [start]⟩] [start] := by
  refine ⟨by simp, ?_, by simp, by simp⟩
  intro r hr
  rw [List.mem_singleton.1 hr]
  exact ⟨rfl, rfl, rfl, List.nodup_singleton start, .singleton start, by simp⟩

variable {neighbors policy start} {steps : Nat} {layer : List (Reached ν)} {seen : List ν}

theorem Route.path_ne_nil {r : Reached ν} (h : Route neighbors policy start r) : r.path ≠ [] := by
  intro hnil
  have hlength := h.length
  rw [hnil] at hlength
  cases hlength

/-- One more edge, to a node that is not on the path. -/
theorem Route.snoc {r : Reached ν} (h : Route neighbors policy start r)
    (hexpands : ∀ u ∈ r.path.tail, (policy u).expand) {v : ν} (hv : v ∈ neighbors r.node)
    (hnew : v ∉ r.path) : Route neighbors policy start ⟨v, r.steps + 1, r.path ++ [v]⟩ where
  length := by rw [List.length_append, h.length, List.length_singleton]
  head := by rw [List.head?_append, h.head, Option.some_or]
  last := List.getLast?_concat
  nodup := by
    rw [← List.concat_eq_append]
    exact h.nodup.concat hnew
  linked := by
    rw [List.isChain_append]
    refine ⟨h.linked, .singleton v, ?_⟩
    simpa [h.last] using hv
  passes := by
    rw [List.tail_append_of_ne_nil h.path_ne_nil, List.dropLast_concat]
    exact hexpands

variable [DecidableEq ν]

theorem path_of_mem_meet {path vs : List ν} {m : Reached ν}
    (hm : m ∈ (meet steps path vs seen).1) : m.path = path ++ [m.node] := by
  induction vs generalizing seen with
  | nil => cases hm
  | cons v vs ih =>
      by_cases hv : v ∈ seen
      · rw [meet_cons_of_mem hv] at hm
        exact ih hm
      · rw [meet_cons_of_not_mem hv] at hm
        rcases List.mem_cons.1 hm with rfl | hm
        · rfl
        · exact ih hm

/-- A node is met from one of the layer, on the path to that node. -/
theorem exists_source {m : Reached ν} (hm : m ∈ (sweep neighbors steps layer seen).1) :
    ∃ r ∈ layer, m.node ∈ neighbors r.node ∧ m.path = r.path ++ [m.node] := by
  induction layer generalizing seen with
  | nil => cases hm
  | cons r layer ih =>
      rw [sweep_cons] at hm
      rcases List.mem_append.1 hm with hm | hm
      · have hmet := (meet_meets steps r.path (neighbors r.node) seen).mem_met m.node
        exact ⟨r, List.mem_cons_self, (hmet.1 (List.mem_map_of_mem hm)).2, path_of_mem_meet hm⟩
      · obtain ⟨r', hr', hm⟩ := ih hm
        exact ⟨r', List.mem_cons_of_mem r hr', hm⟩

section Trails

variable (h : Trails neighbors policy start steps layer seen)
include h

theorem Trails.route_met {m : Reached ν} (hm : m ∈ (sweep neighbors (steps + 1) layer seen).1) :
    Route neighbors policy start m := by
  have hmeets := sweep_meets neighbors (steps + 1) layer seen
  obtain ⟨r, hr, hnode, hpath⟩ := exists_source hm
  have hfresh := ((hmeets.mem_met m.node).1 (List.mem_map_of_mem hm)).1
  have hroute := (h.route r hr).snoc (h.expands r hr) hnode fun hv => hfresh (h.visited r hr _ hv)
  rwa [h.steps_eq r hr, ← hmeets.steps_eq m hm, ← hpath] at hroute

theorem Trails.next : Trails neighbors policy start (steps + 1)
    ((sweep neighbors (steps + 1) layer seen).1.filter fun m => (policy m.node).expand)
    (sweep neighbors (steps + 1) layer seen).2 := by
  have hmeets := sweep_meets neighbors (steps + 1) layer seen
  refine ⟨?_, ?_, ?_, ?_⟩ <;> intro m hm <;> obtain ⟨hm, hexpand⟩ := List.mem_filter.1 hm
  · exact hmeets.steps_eq m hm
  · exact h.route_met hm
  · obtain ⟨r, hr, -, hpath⟩ := exists_source hm
    rw [hpath, List.tail_append_of_ne_nil (h.route r hr).path_ne_nil]
    intro u hu
    rcases List.mem_append.1 hu with hu | hu
    · exact h.expands r hr u hu
    · rwa [List.mem_singleton.1 hu]
  · obtain ⟨r, hr, hnode, hpath⟩ := exists_source hm
    rw [hpath]
    intro u hu
    rw [hmeets.mem_seen]
    rcases List.mem_append.1 hu with hu | hu
    · exact Or.inl (h.visited r hr u hu)
    · rw [List.mem_singleton.1 hu]
      exact Or.inr (List.mem_flatMap.2 ⟨r, hr, hnode⟩)

theorem Trails.route_layers (n : Nat) {m : Reached ν}
    (hm : m ∈ layers neighbors policy n steps layer seen) : Route neighbors policy start m := by
  induction n generalizing steps layer seen with
  | zero => cases hm
  | succ n ih =>
      rw [layers_succ] at hm
      rcases List.mem_append.1 hm with hm | hm
      · exact h.route_met hm
      · exact ih h.next hm

end Trails

variable (neighbors policy)

/-- The search finds no node twice and the nearer nodes first, each on a route within the range. -/
theorem explore_routes (start : ν) (maxSteps : Nat) :
    ((explore neighbors policy start maxSteps).map Reached.node).Nodup ∧
    ((explore neighbors policy start maxSteps).Pairwise fun r r' => r.steps ≤ r'.steps) ∧
    ∀ r ∈ explore neighbors policy start maxSteps,
      1 ≤ r.steps ∧ r.steps ≤ maxSteps ∧ Route neighbors policy start r := by
  refine ⟨explore_nodup, layers_steps_le.filter _, fun r hr => ?_⟩
  have hr := (List.mem_filter.1 hr).1
  obtain ⟨hpos, hle⟩ := steps_of_mem_layers hr
  rw [Nat.zero_add] at hle
  exact ⟨hpos, hle, (trails_initial neighbors policy start).route_layers maxSteps hr⟩

end Warboard.Reach
