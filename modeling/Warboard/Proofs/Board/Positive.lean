import Warboard.Proofs.Board.Operation
import Warboard.Proofs.Board.Stack
import Warboard.Proofs.Board.Update

namespace Warboard

open Checked

namespace Board

variable {b b' : Board} {i : TerritoryId}

/-- No stack and no entry of a pool is empty. -/
structure Positive (b : Board) : Prop where
  garrisons : ∀ t ∈ b.territories, ∀ s ∈ t.units, 0 < s.quantity
  pools : ∀ (name : String), ∀ o ∈ b.owners[name]?, ∀ (unit : String), ∀ n ∈ o.unplaced[unit]?, 0 < n

/-- If the operation adds units, it adds at least one. -/
def Operation.AddsSome : Operation → Prop
  | .addUnits _ _ n | .addUnplaced _ _ n => 0 < n
  | _ => True

namespace Positive

theorem updateTerritory (h : b.Positive) {f : Territory → Territory}
    (hunits : ∀ t, b.territories[i]? = some t → ∀ s ∈ (f t).units, 0 < s.quantity) :
    (b.updateTerritory i f).Positive where
  garrisons t ht := by
    obtain ht | ⟨u, hu, rfl⟩ := mem_updateTerritory ht
    · exact h.garrisons t ht
    · exact hunits u hu
  pools := h.pools

theorem updateFlag (h : b.Positive) {f : Territory → Territory}
    (hunits : ∀ t, (f t).units = t.units) : (b.updateTerritory i f).Positive :=
  h.updateTerritory fun t ht => hunits t ▸ h.garrisons t (List.mem_of_getElem? ht)

theorem updateOwner (h : b.Positive) {f : Owner → Owner} (player : String)
    (hpool : ∀ o : Owner, (∀ (unit : String), ∀ n ∈ o.unplaced[unit]?, 0 < n) →
      ∀ (unit : String), ∀ n ∈ (f o).unplaced[unit]?, 0 < n) :
    (b.updateOwner player f).Positive where
  garrisons := h.garrisons
  pools name o ho := by
    obtain ho | ⟨u, hu | rfl, rfl⟩ := mem_updateOwner ho
    · exact h.pools name o ho
    · exact hpool u (h.pools name u hu)
    · apply hpool
      intro unit n hn
      rw [Owner.new, Option.mem_def, Std.ExtTreeMap.getElem?_empty] at hn
      cases hn

theorem addUnits (h : b.Positive) {key : UnitKey} {n : UInt32} (hn : 0 < n)
    (hb : b.addUnits i key n = .ok b') : b'.Positive := by
  obtain ⟨t, units, ht, hunits, rfl⟩ | ⟨-, rfl⟩ := addUnits_eq_ok_iff.1 hb
  · refine h.updateTerritory fun u _ => ?_
    exact Stack.quantity_pos_addTo (h.garrisons t (List.mem_of_getElem? ht)) hn hunits
  · exact h

theorem removeUnits (h : b.Positive) {key : UnitKey} {n : UInt32}
    (hb : b.removeUnits i key n = some b') : b'.Positive := by
  obtain ⟨t, units, ht, hunits, rfl⟩ := removeUnits_eq_some_iff.1 hb
  refine h.updateTerritory fun u _ => ?_
  exact Stack.quantity_pos_removeFrom (h.garrisons t (List.mem_of_getElem? ht)) hunits

theorem mark (h : b.Positive) {key : UnitKey} {f : Marks → Marks}
    (hb : b.mark i key f = some b') : b'.Positive := by
  obtain ⟨t, units, ht, hunits, rfl⟩ := mark_eq_some_iff.1 hb
  refine h.updateTerritory fun u _ s hs => ?_
  have hpair : (s.key, s.quantity) ∈ t.units.map fun s => (s.key, s.quantity) := by
    rw [← Stack.map_markIn hunits]
    exact List.mem_map_of_mem hs
  obtain ⟨s', hs', he⟩ := List.mem_map.1 hpair
  rw [← (Prod.mk.inj he).2]
  exact h.garrisons t (List.mem_of_getElem? ht) s' hs'

theorem addUnplaced (h : b.Positive) {player unit : String} {n : UInt32} (hn : 0 < n)
    (hb : b.addUnplaced player unit n = .ok b') : b'.Positive := by
  obtain ⟨total, htotal, hb⟩ := bind_eq_ok_iff.mp hb
  cases hb
  have hpos : 0 < total := by
    rw [addQuantity_eq_ok_iff] at htotal
    rw [UInt32.lt_iff_toNat_lt] at hn ⊢
    exact htotal ▸ Nat.add_pos_right _ hn
  refine h.updateOwner player fun o ho name m hm => ?_
  rw [Option.mem_def, Std.ExtTreeMap.getElem?_insert] at hm
  split at hm
  · cases hm
    exact hpos
  · exact ho name m hm

theorem removeUnplaced (h : b.Positive) (player unit : String) (n : UInt32) :
    (b.removeUnplaced player unit n).Positive := by
  refine h.updateOwner player fun o ho name m hm => ?_
  rw [Option.mem_def, Std.ExtTreeMap.getElem?_alter] at hm
  split at hm
  · obtain ⟨q, -, hm⟩ := Option.bind_eq_some_iff.1 hm
    split at hm
    · cases hm
    · rename_i hle
      cases hm
      exact quantity_sub_pos (UInt32.not_le.1 hle)
  · exact ho name m hm

theorem clearUnplaced (h : b.Positive) (player : String) : (b.clearUnplaced player).Positive where
  garrisons := h.garrisons
  pools name o ho := by
    obtain ho | ⟨u, hu, rfl⟩ := mem_clearUnplaced ho
    · exact h.pools name o ho
    · intro unit n hn
      rw [Option.mem_def, Std.ExtTreeMap.getElem?_empty] at hn
      cases hn

theorem relink (h : b.Positive)
    (f : Std.ExtTreeSet TerritoryId → TerritoryId → Std.ExtTreeSet TerritoryId)
    (i j : TerritoryId) : (b.relink f i j).Positive := by
  refine (h.updateFlag ?_).updateFlag ?_
  · exact fun _ => rfl
  · exact fun _ => rfl

theorem setOwner (h : b.Positive) {territory player : String}
    (hb : b.setOwner territory player = some b') : b'.Positive := by
  obtain ⟨i, -, rfl⟩ := Option.map_eq_some_iff.1 hb
  refine (h.updateFlag ?_).updateOwner player ?_
  · exact fun _ => rfl
  · exact fun _ ho => ho

theorem connect (h : b.Positive) {origin target : String}
    (hb : b.connect origin target = some b') : b'.Positive := by
  obtain ⟨i, j, -, -, rfl⟩ := connect_eq_some_iff.1 hb
  exact h.relink _ i j

theorem disconnect (h : b.Positive) {origin target : String}
    (hb : b.disconnect origin target = some b') : b'.Positive := by
  obtain ⟨i, j, -, rfl⟩ := disconnect_eq_some_iff.1 hb
  exact h.relink _ i j

theorem perform (h : b.Positive) {op : Operation} (hop : op.AddsSome)
    (hb : b.perform op = .ok b') : b'.Positive := by
  cases op with
  | setOwner territory player => cases hb; exact getD_keeps h fun _ hc => h.setOwner hc
  | addUnits i key n => exact h.addUnits hop hb
  | removeUnits i key n => cases hb; exact getD_keeps h fun _ hc => h.removeUnits hc
  | setProperty i key property value => cases hb; exact getD_keeps h fun _ hc => h.mark hc
  | startBattle i => cases hb; exact h.updateFlag fun _ => rfl
  | addUnplaced player unit n => exact h.addUnplaced hop hb
  | removeUnplaced player unit n => cases hb; exact h.removeUnplaced player unit n
  | clearUnplaced player => cases hb; exact h.clearUnplaced player
  | adjustBalance player delta =>
      obtain ⟨balance, -, hb⟩ := bind_eq_ok_iff.mp hb
      cases hb
      exact h.updateOwner player fun _ ho => ho
  | connect origin target => cases hb; exact getD_keeps h fun _ hc => h.connect hc
  | disconnect origin target => cases hb; exact getD_keeps h fun _ hc => h.disconnect hc

end Positive

end Board

end Warboard
