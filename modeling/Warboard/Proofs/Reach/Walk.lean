import Warboard.Reach

namespace Warboard.Reach

variable {ν : Type} (neighbors : ν → List ν) (policy : ν → Visit) (start : ν)

/-- There is a walk from the start to the node with the given number of edges, at least one, and the
search goes on through all nodes between the two ends. -/
inductive Walk : Nat → ν → Prop
  | edge {v : ν} : v ∈ neighbors start → Walk 1 v
  | snoc {k : Nat} {u v : ν} : Walk k u → (policy u).expand → v ∈ neighbors u → Walk (k + 1) v

/-- The search can get to the node with that number of edges, and leave it again. -/
def Passes (k : Nat) (u : ν) : Prop :=
  (k = 0 ∧ u = start) ∨ (Walk neighbors policy start k u ∧ (policy u).expand)

variable {neighbors policy start}

theorem Walk.pos {k : Nat} {v : ν} (h : Walk neighbors policy start k v) : 1 ≤ k := by
  cases h with
  | edge => exact Nat.le_refl 1
  | snoc => exact Nat.le_add_left 1 _

theorem walk_succ_iff {k : Nat} {v : ν} : Walk neighbors policy start (k + 1) v ↔
    ∃ u, Passes neighbors policy start k u ∧ v ∈ neighbors u := by
  constructor
  · intro h
    cases h with
    | edge hv => exact ⟨start, Or.inl ⟨rfl, rfl⟩, hv⟩
    | snoc hu he hv => exact ⟨_, Or.inr ⟨hu, he⟩, hv⟩
  · rintro ⟨u, ⟨rfl, rfl⟩ | ⟨hu, he⟩, hv⟩
    · exact .edge hv
    · exact .snoc hu he hv

variable (neighbors policy start)

/-- Between two layers the search has seen the nodes within so many edges, and it will go on from
those at just that distance that it can leave. -/
structure Frontier (steps : Nat) (layer : List (Reached ν)) (seen : List ν) : Prop where
  mem_seen : ∀ v, v ∈ seen ↔ v = start ∨ ∃ k ≤ steps, Walk neighbors policy start k v
  sound : ∀ r ∈ layer, Passes neighbors policy start steps r.node
  complete : ∀ u, Passes neighbors policy start steps u →
    (∃ r ∈ layer, r.node = u) ∨ ∃ k < steps, Passes neighbors policy start k u

theorem frontier_initial : Frontier neighbors policy start 0 [⟨start, 0, [start]⟩] [start] := by
  refine ⟨?_, ?_, ?_⟩
  · intro v
    refine ⟨fun hv => Or.inl (List.mem_singleton.1 hv), ?_⟩
    rintro (rfl | ⟨k, hk, hw⟩)
    · exact List.mem_singleton_self v
    · exact absurd hw.pos (by omega)
  · simp [Passes]
  · rintro u (⟨-, rfl⟩ | ⟨hw, -⟩)
    · exact Or.inl ⟨_, List.mem_singleton_self _, rfl⟩
    · exact absurd hw.pos (by omega)

variable {neighbors policy start} {steps : Nat} {layer : List (Reached ν)} {seen : List ν}

/-- A target is at one more edge than the layer, and any other such node was seen before. -/
theorem Frontier.walk_succ_iff (h : Frontier neighbors policy start steps layer seen) (v : ν) :
    v ∈ seen ∨ v ∈ layer.flatMap (fun r => neighbors r.node) ↔
      v ∈ seen ∨ Walk neighbors policy start (steps + 1) v := by
  rw [Reach.walk_succ_iff]
  constructor
  · rintro (hv | hv)
    · exact Or.inl hv
    · obtain ⟨r, hr, hv⟩ := List.mem_flatMap.1 hv
      exact Or.inr ⟨r.node, h.sound r hr, hv⟩
  · rintro (hv | ⟨u, hu, hv⟩)
    · exact Or.inl hv
    · obtain ⟨r, hr, rfl⟩ | ⟨k, hk, hu⟩ := h.complete u hu
      · exact Or.inr (List.mem_flatMap.2 ⟨r, hr, hv⟩)
      · exact Or.inl ((h.mem_seen v).2
          (Or.inr ⟨k + 1, hk, Reach.walk_succ_iff.2 ⟨u, hu, hv⟩⟩))

/-- The nodes met from some sources: those of the targets that were not seen before, each once. -/
structure Meets (steps : Nat) (targets seen : List ν) (result : List (Reached ν) × List ν) :
    Prop where
  nodup : (result.1.map Reached.node).Nodup
  steps_eq : ∀ m ∈ result.1, m.steps = steps
  mem_met : ∀ v, v ∈ result.1.map Reached.node ↔ v ∉ seen ∧ v ∈ targets
  mem_seen : ∀ v, v ∈ result.2 ↔ v ∈ seen ∨ v ∈ targets

theorem Meets.nil (steps : Nat) (seen : List ν) : Meets steps [] seen ([], seen) :=
  ⟨List.nodup_nil, by simp, by simp, by simp⟩

theorem Meets.append {steps : Nat} {xs ys seen : List ν} {met later : List (Reached ν)}
    {between after : List ν} (hx : Meets steps xs seen (met, between))
    (hy : Meets steps ys between (later, after)) :
    Meets steps (xs ++ ys) seen (met ++ later, after) := by
  refine ⟨?_, ?_, ?_, ?_⟩
  · rw [List.map_append, List.nodup_append]
    refine ⟨hx.nodup, hy.nodup, ?_⟩
    rintro u hu v hv rfl
    have hfresh := ((hy.mem_met u).1 hv).1
    exact hfresh ((hx.mem_seen u).2 (Or.inr ((hx.mem_met u).1 hu).2))
  · intro m hm
    obtain hm | hm := List.mem_append.1 hm
    · exact hx.steps_eq m hm
    · exact hy.steps_eq m hm
  · intro v
    have hmet := hx.mem_met v
    have hlater := hy.mem_met v
    have hbetween := hx.mem_seen v
    simp only [List.map_append, List.mem_append] at *
    grind
  · intro v
    have hbetween := hx.mem_seen v
    have hafter := hy.mem_seen v
    simp only [List.mem_append] at *
    grind

variable [DecidableEq ν]

theorem meet_cons_of_mem {steps : Nat} {path vs seen : List ν} {v : ν} (h : v ∈ seen) :
    meet steps path (v :: vs) seen = meet steps path vs seen := by
  rw [meet, if_pos h]

theorem meet_cons_of_not_mem {steps : Nat} {path vs seen : List ν} {v : ν} (h : v ∉ seen) :
    meet steps path (v :: vs) seen =
      (⟨v, steps, path ++ [v]⟩ :: (meet steps path vs (v :: seen)).1,
        (meet steps path vs (v :: seen)).2) := by
  rw [meet, if_neg h]

theorem meet_meets (steps : Nat) (path vs seen : List ν) :
    Meets steps vs seen (meet steps path vs seen) := by
  induction vs generalizing seen with
  | nil => exact .nil steps seen
  | cons v vs ih =>
      by_cases hv : v ∈ seen
      · rw [meet_cons_of_mem hv]
        have hone : Meets steps [v] seen ([], seen) := by
          refine ⟨List.nodup_nil, by simp, ?_, ?_⟩
          · grind
          · grind
        exact hone.append (ih seen)
      · rw [meet_cons_of_not_mem hv]
        have hone : Meets steps [v] seen ([⟨v, steps, path ++ [v]⟩], v :: seen) := by
          refine ⟨by simp, by simp, ?_, ?_⟩
          · grind
          · grind
        exact hone.append (ih (v :: seen))

variable (neighbors policy)

theorem sweep_cons (steps : Nat) (r : Reached ν) (layer : List (Reached ν)) (seen : List ν) :
    sweep neighbors steps (r :: layer) seen =
      ((meet steps r.path (neighbors r.node) seen).1 ++
        (sweep neighbors steps layer (meet steps r.path (neighbors r.node) seen).2).1,
      (sweep neighbors steps layer (meet steps r.path (neighbors r.node) seen).2).2) := by
  rw [sweep]

theorem sweep_meets (steps : Nat) (layer : List (Reached ν)) (seen : List ν) :
    Meets steps (layer.flatMap fun r => neighbors r.node) seen
      (sweep neighbors steps layer seen) := by
  induction layer generalizing seen with
  | nil => exact .nil steps seen
  | cons r layer ih =>
      rw [sweep_cons, List.flatMap_cons]
      exact (meet_meets steps r.path (neighbors r.node) seen).append (ih _)

theorem layers_nil (n steps : Nat) (seen : List ν) :
    layers neighbors policy n steps [] seen = [] := by
  cases n <;> rfl

theorem layers_succ (n steps : Nat) (layer : List (Reached ν)) (seen : List ν) :
    layers neighbors policy (n + 1) steps layer seen =
      (sweep neighbors (steps + 1) layer seen).1 ++
        layers neighbors policy n (steps + 1)
          ((sweep neighbors (steps + 1) layer seen).1.filter fun m => (policy m.node).expand)
          (sweep neighbors (steps + 1) layer seen).2 := by
  cases layer with
  | nil => simp [layers, sweep, layers_nil]
  | cons r layer => rfl

variable {neighbors policy}

/-- The nodes that a sweep meets are those at just one edge more. -/
theorem Frontier.mem_met (h : Frontier neighbors policy start steps layer seen) (v : ν) :
    v ∈ (sweep neighbors (steps + 1) layer seen).1.map Reached.node ↔
      v ∉ seen ∧ Walk neighbors policy start (steps + 1) v := by
  have hmet := (sweep_meets neighbors (steps + 1) layer seen).mem_met v
  have hwalk := h.walk_succ_iff v
  grind

theorem Frontier.next (h : Frontier neighbors policy start steps layer seen) :
    Frontier neighbors policy start (steps + 1)
      ((sweep neighbors (steps + 1) layer seen).1.filter fun m => (policy m.node).expand)
      (sweep neighbors (steps + 1) layer seen).2 := by
  refine ⟨?_, ?_, ?_⟩
  · intro v
    rw [(sweep_meets neighbors (steps + 1) layer seen).mem_seen, h.walk_succ_iff, h.mem_seen]
    constructor
    · rintro ((rfl | ⟨k, hk, hw⟩) | hw)
      · exact Or.inl rfl
      · exact Or.inr ⟨k, Nat.le_succ_of_le hk, hw⟩
      · exact Or.inr ⟨steps + 1, Nat.le_refl _, hw⟩
    · rintro (rfl | ⟨k, hk, hw⟩)
      · exact Or.inl (Or.inl rfl)
      · obtain hk | rfl := Nat.le_succ_iff.1 hk
        · exact Or.inl (Or.inr ⟨k, hk, hw⟩)
        · exact Or.inr hw
  · intro m hm
    obtain ⟨hm, he⟩ := List.mem_filter.1 hm
    exact Or.inr ⟨((h.mem_met m.node).1 (List.mem_map_of_mem hm)).2, he⟩
  · rintro u (⟨hzero, -⟩ | ⟨hw, he⟩)
    · exact absurd hzero (by omega)
    · by_cases hu : u ∈ seen
      · obtain rfl | ⟨k, hk, hk'⟩ := (h.mem_seen u).1 hu
        · exact Or.inr ⟨0, by omega, Or.inl ⟨rfl, rfl⟩⟩
        · exact Or.inr ⟨k, by omega, Or.inr ⟨hk', he⟩⟩
      · obtain ⟨m, hm, rfl⟩ := List.mem_map.1 ((h.mem_met u).2 ⟨hu, hw⟩)
        exact Or.inl ⟨m, List.mem_filter.2 ⟨hm, he⟩, rfl⟩

theorem Frontier.layers_nodup (h : Frontier neighbors policy start steps layer seen) (n : Nat) :
    ((layers neighbors policy n steps layer seen).map Reached.node).Nodup ∧
      ∀ v ∈ (layers neighbors policy n steps layer seen).map Reached.node, v ∉ seen := by
  induction n generalizing steps layer seen with
  | zero => simp [layers]
  | succ n ih =>
      obtain ⟨hnodup, hfresh⟩ := ih h.next
      have hmeets := sweep_meets neighbors (steps + 1) layer seen
      rw [layers_succ, List.map_append, List.nodup_append]
      refine ⟨⟨hmeets.nodup, hnodup, ?_⟩, ?_⟩
      · rintro u hu v hv rfl
        exact hfresh u hv ((hmeets.mem_seen u).2 (Or.inr ((hmeets.mem_met u).1 hu).2))
      · intro v hv
        obtain hv | hv := List.mem_append.1 hv
        · exact ((hmeets.mem_met v).1 hv).1
        · exact fun hs => hfresh v hv ((hmeets.mem_seen v).2 (Or.inl hs))

theorem Frontier.mem_layers (h : Frontier neighbors policy start steps layer seen) (n : Nat)
    (v : ν) :
    v ∈ (layers neighbors policy n steps layer seen).map Reached.node ↔
      v ∉ seen ∧ ∃ k ≤ steps + n, Walk neighbors policy start k v := by
  induction n generalizing steps layer seen with
  | zero =>
      have hseen := h.mem_seen v
      simp only [layers, List.map_nil, List.not_mem_nil, Nat.add_zero, false_iff]
      grind
  | succ n ih =>
      rw [layers_succ, List.map_append, List.mem_append, h.mem_met, ih h.next, h.next.mem_seen,
        h.mem_seen]
      grind

theorem Frontier.steps_least (h : Frontier neighbors policy start steps layer seen) (n : Nat) :
    ∀ r ∈ layers neighbors policy n steps layer seen,
      Walk neighbors policy start r.steps r.node ∧
        ∀ k, Walk neighbors policy start k r.node → r.steps ≤ k := by
  induction n generalizing steps layer seen with
  | zero => simp [layers]
  | succ n ih =>
      intro r hr
      rw [layers_succ] at hr
      obtain hr | hr := List.mem_append.1 hr
      · obtain ⟨hfresh, hw⟩ := (h.mem_met r.node).1 (List.mem_map_of_mem hr)
        rw [(sweep_meets neighbors (steps + 1) layer seen).steps_eq r hr]
        refine ⟨hw, ?_⟩
        intro k hk
        by_cases hle : k ≤ steps
        · exact absurd ((h.mem_seen r.node).2 (Or.inr ⟨k, hle, hk⟩)) hfresh
        · omega
      · exact ih h.next r hr

variable (neighbors policy) (maxSteps : Nat)

theorem mem_encounters (start : ν) (v : ν) :
    v ∈ (encounters neighbors policy start maxSteps).map Reached.node ↔
      v ≠ start ∧ ∃ k ≤ maxSteps, Walk neighbors policy start k v := by
  rw [encounters, (frontier_initial neighbors policy start).mem_layers, Nat.zero_add,
    List.mem_singleton]

theorem encounters_nodup (start : ν) :
    ((encounters neighbors policy start maxSteps).map Reached.node).Nodup :=
  ((frontier_initial neighbors policy start).layers_nodup maxSteps).1

theorem mem_explore {start : ν} {v : ν} :
    v ∈ (explore neighbors policy start maxSteps).map Reached.node ↔
      v ∈ (encounters neighbors policy start maxSteps).map Reached.node ∧ (policy v).record := by
  simp only [explore, List.mem_map, List.mem_filter]
  grind

variable {neighbors policy maxSteps}

theorem explore_nodup {start : ν} :
    ((explore neighbors policy start maxSteps).map Reached.node).Nodup :=
  (encounters_nodup neighbors policy maxSteps start).sublist
    (List.filter_sublist.map Reached.node)

end Warboard.Reach
