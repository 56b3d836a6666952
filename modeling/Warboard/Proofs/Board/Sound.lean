import Warboard.Proofs.Board.Operation
import Warboard.Proofs.Board.Stack
import Warboard.Proofs.Board.Update

namespace Warboard

open Checked

namespace Board

variable {b b' : Board} {names : List String} {i j : TerritoryId}

/-- What holds of every board of a map with these territories. -/
structure Sound (names : List String) (b : Board) : Prop where
  names_eq : b.territories.map Territory.name = names
  keys_nodup : ∀ t ∈ b.territories, (t.units.map Stack.key).Nodup
  neighbors_symm : ∀ i j, j ∈ b.neighborsOf i → i ∈ b.neighborsOf j
  neighbors_irrefl : ∀ i, i ∉ b.neighborsOf i
  owner_name : ∀ (name : String), ∀ o ∈ b.owners[name]?, o.name = name
  latest_lt : ∀ (name : String), ∀ o ∈ b.owners[name]?, ∀ i ∈ o.latest, i < names.length

namespace Sound

theorem length_eq (h : b.Sound names) : b.territories.length = names.length := by
  rw [← h.names_eq, List.length_map]

theorem isSome_locate_iff (h : b.Sound names) {name : String} :
    (b.locate name).isSome ↔ name ∈ names := by
  rw [locate, isSome_locateIn_iff, h.names_eq]

/-- On all boards of the map a name leads to the same territory. -/
theorem locate_eq (h : b.Sound names) (h' : b'.Sound names) (name : String) :
    b'.locate name = b.locate name :=
  locateIn_congr (h'.names_eq.trans h.names_eq.symm)

theorem lt_length (h : b.Sound names) (hj : j ∈ b.neighborsOf i) : j < b.territories.length :=
  lt_length_of_mem_neighborsOf (h.neighbors_symm i j hj)

theorem updateTerritory (h : b.Sound names) {f : Territory → Territory}
    (hname : ∀ t, (f t).name = t.name) (hneighbors : ∀ t, (f t).neighbors = t.neighbors)
    (hunits : ∀ t, b.territories[i]? = some t → ((f t).units.map Stack.key).Nodup) :
    (b.updateTerritory i f).Sound names where
  names_eq := by rw [names_updateTerritory hname, h.names_eq]
  keys_nodup t ht := by
    obtain ht | ⟨u, hu, rfl⟩ := mem_updateTerritory ht
    · exact h.keys_nodup t ht
    · exact hunits u hu
  neighbors_symm k l hl := by
    rw [mem_neighborsOf_updateTerritory hneighbors] at hl ⊢
    exact h.neighbors_symm k l hl
  neighbors_irrefl k hk := by
    rw [mem_neighborsOf_updateTerritory hneighbors] at hk
    exact h.neighbors_irrefl k hk
  owner_name := h.owner_name
  latest_lt := h.latest_lt

theorem updateFlag (h : b.Sound names) {f : Territory → Territory}
    (hname : ∀ t, (f t).name = t.name) (hneighbors : ∀ t, (f t).neighbors = t.neighbors)
    (hunits : ∀ t, (f t).units = t.units) : (b.updateTerritory i f).Sound names :=
  h.updateTerritory hname hneighbors fun t ht =>
    hunits t ▸ h.keys_nodup t (List.mem_of_getElem? ht)

theorem updateOwner (h : b.Sound names) {f : Owner → Owner} (player : String)
    (hname : ∀ o, (f o).name = o.name)
    (hlatest : ∀ o, ∀ i ∈ (f o).latest, i ∈ o.latest ∨ i < names.length) :
    (b.updateOwner player f).Sound names where
  names_eq := h.names_eq
  keys_nodup := h.keys_nodup
  neighbors_symm := h.neighbors_symm
  neighbors_irrefl := h.neighbors_irrefl
  owner_name name o ho := by
    obtain ho | ⟨u, hu | rfl, rfl⟩ := mem_updateOwner ho
    · exact h.owner_name name o ho
    · exact (hname u).trans (h.owner_name name u hu)
    · exact hname _
  latest_lt name o ho k hk := by
    obtain ho | ⟨u, hu, rfl⟩ := mem_updateOwner ho
    · exact h.latest_lt name o ho k hk
    · obtain hk | hk := hlatest u k hk
      · obtain hu | rfl := hu
        · exact h.latest_lt name u hu k hk
        · cases hk
      · exact hk

theorem updatePool (h : b.Sound names) {f : Owner → Owner} (player : String)
    (hname : ∀ o, (f o).name = o.name) (hlatest : ∀ o, (f o).latest = o.latest) :
    (b.updateOwner player f).Sound names :=
  h.updateOwner player hname fun o _ hi => Or.inl (hlatest o ▸ hi)

theorem relink (h : b.Sound names)
    {f : Std.ExtTreeSet TerritoryId → TerritoryId → Std.ExtTreeSet TerritoryId}
    (hsymm : ∀ k l, l ∈ (b.relink f i j).neighborsOf k → k ∈ (b.relink f i j).neighborsOf l)
    (hirrefl : ∀ k, k ∉ (b.relink f i j).neighborsOf k) : (b.relink f i j).Sound names where
  names_eq := by
    refine (names_updateTerritory ?_).trans ((names_updateTerritory ?_).trans h.names_eq)
    · exact fun _ => rfl
    · exact fun _ => rfl
  keys_nodup t ht := by
    obtain ht | ⟨u, hu, rfl⟩ := mem_updateTerritory ht
    · obtain ht | ⟨v, hv, rfl⟩ := mem_updateTerritory ht
      · exact h.keys_nodup t ht
      · exact h.keys_nodup v (List.mem_of_getElem? hv)
    · obtain hu | ⟨v, hv, rfl⟩ := mem_updateTerritory (List.mem_of_getElem? hu)
      · exact h.keys_nodup u hu
      · exact h.keys_nodup v (List.mem_of_getElem? hv)
  neighbors_symm := hsymm
  neighbors_irrefl := hirrefl
  owner_name := h.owner_name
  latest_lt := h.latest_lt

theorem setOwner (h : b.Sound names) {territory player : String}
    (hb : b.setOwner territory player = some b') : b'.Sound names := by
  obtain ⟨i, hi, rfl⟩ := Option.map_eq_some_iff.1 hb
  have hlt : i < names.length := h.length_eq ▸ lt_length_of_locate hi
  refine (h.updateFlag ?_ ?_ ?_).updateOwner player ?_ ?_
  · exact fun _ => rfl
  · exact fun _ => rfl
  · exact fun _ => rfl
  · exact fun _ => rfl
  · rintro o k ⟨⟩
    exact Or.inr hlt

theorem addUnits (h : b.Sound names) {key : UnitKey} {n : UInt32}
    (hb : b.addUnits i key n = .ok b') : b'.Sound names := by
  obtain ⟨t, units, ht, hunits, rfl⟩ | ⟨-, rfl⟩ := addUnits_eq_ok_iff.1 hb
  · refine h.updateTerritory (fun _ => rfl) (fun _ => rfl) fun u _ => ?_
    exact Stack.keys_nodup_addTo (h.keys_nodup t (List.mem_of_getElem? ht)) hunits
  · exact h

theorem removeUnits (h : b.Sound names) {key : UnitKey} {n : UInt32}
    (hb : b.removeUnits i key n = some b') : b'.Sound names := by
  obtain ⟨t, units, ht, hunits, rfl⟩ := removeUnits_eq_some_iff.1 hb
  refine h.updateTerritory (fun _ => rfl) (fun _ => rfl) fun u _ => ?_
  exact (h.keys_nodup t (List.mem_of_getElem? ht)).sublist (Stack.map_key_removeFrom hunits)

theorem mark (h : b.Sound names) {key : UnitKey} {f : Marks → Marks}
    (hb : b.mark i key f = some b') : b'.Sound names := by
  obtain ⟨t, units, ht, hunits, rfl⟩ := mark_eq_some_iff.1 hb
  refine h.updateTerritory (fun _ => rfl) (fun _ => rfl) fun u _ => ?_
  have hkeys := congrArg (List.map Prod.fst) (Stack.map_markIn hunits)
  rw [List.map_map, List.map_map] at hkeys
  exact (congrArg List.Nodup hkeys).mpr (h.keys_nodup t (List.mem_of_getElem? ht))

theorem clearUnplaced (h : b.Sound names) (player : String) :
    (b.clearUnplaced player).Sound names where
  names_eq := h.names_eq
  keys_nodup := h.keys_nodup
  neighbors_symm := h.neighbors_symm
  neighbors_irrefl := h.neighbors_irrefl
  owner_name name o ho := by
    obtain ho | ⟨u, hu, rfl⟩ := mem_clearUnplaced ho
    · exact h.owner_name name o ho
    · exact h.owner_name name u hu
  latest_lt name o ho := by
    obtain ho | ⟨u, hu, rfl⟩ := mem_clearUnplaced ho
    · exact h.latest_lt name o ho
    · exact h.latest_lt name u hu

theorem connect (h : b.Sound names) {origin target : String}
    (hb : b.connect origin target = some b') : b'.Sound names := by
  obtain ⟨i, j, hends, hij, rfl⟩ := connect_eq_some_iff.1 hb
  obtain ⟨hi, hj⟩ := ends_eq_some_iff.1 hends
  have hmem {k l : TerritoryId} := mem_neighborsOf_connect (b := b) (k := k) (l := l)
    (lt_length_of_locate hi) (lt_length_of_locate hj)
  apply h.relink
  · intro k l hl
    have := h.neighbors_symm k l
    grind
  · intro k hk
    have := h.neighbors_irrefl k
    grind

theorem disconnect (h : b.Sound names) {origin target : String}
    (hb : b.disconnect origin target = some b') : b'.Sound names := by
  obtain ⟨i, j, -, rfl⟩ := disconnect_eq_some_iff.1 hb
  apply h.relink
  · intro k l hl
    rw [mem_neighborsOf_disconnect] at hl ⊢
    have := h.neighbors_symm k l
    grind
  · intro k hk
    rw [mem_neighborsOf_disconnect] at hk
    exact h.neighbors_irrefl k hk.1

theorem perform (h : b.Sound names) {op : Operation} (hb : b.perform op = .ok b') :
    b'.Sound names := by
  cases op with
  | setOwner territory player => cases hb; exact getD_keeps h fun _ hc => h.setOwner hc
  | addUnits i key n => exact h.addUnits hb
  | removeUnits i key n => cases hb; exact getD_keeps h fun _ hc => h.removeUnits hc
  | setProperty i key property value => cases hb; exact getD_keeps h fun _ hc => h.mark hc
  | startBattle i => cases hb; exact h.updateFlag (fun _ => rfl) (fun _ => rfl) fun _ => rfl
  | addUnplaced player unit n =>
      obtain ⟨total, -, hb⟩ := bind_eq_ok_iff.mp hb
      cases hb
      exact h.updatePool player (fun _ => rfl) fun _ => rfl
  | removeUnplaced player unit n => cases hb; exact h.updatePool player (fun _ => rfl) fun _ => rfl
  | clearUnplaced player => cases hb; exact h.clearUnplaced player
  | adjustBalance player delta =>
      obtain ⟨balance, -, hb⟩ := bind_eq_ok_iff.mp hb
      cases hb
      exact h.updatePool player (fun _ => rfl) fun _ => rfl
  | connect origin target => cases hb; exact getD_keeps h fun _ hc => h.connect hc
  | disconnect origin target => cases hb; exact getD_keeps h fun _ hc => h.disconnect hc

end Sound

end Board

end Warboard
