import Warboard.Proofs.Board.Enrolment
import Warboard.Proofs.Board.Invariant

namespace Warboard

open Checked

namespace Board

variable {b b' : Board} {names : List String} {i : TerritoryId} {op : Operation}

/-- A player with a record owns the territory. -/
def Held (i : TerritoryId) (b : Board) : Prop :=
  ∃ t, b.territories[i]? = some t ∧ t.owner ∈ b.owners

theorem held_of_setOwner {territory player : String} (hb : b.Sound names)
    (hi : b.locate territory = some i) (h : b.perform (.setOwner territory player) = .ok b') :
    b'.Held i := by
  have hlt : i < b.territories.length := lt_length_of_locate hi
  have ht : b.territories[i]? = some b.territories[i] := List.getElem?_eq_getElem hlt
  obtain ⟨t', ht', hturns⟩ := turns_of_perform h ht (hb.keys_nodup _ (List.getElem_mem hlt))
  have howner : t'.owner = player := by
    rw [hturns.owner, Operation.ownerAfter, leadsTo, hi, if_pos (decide_eq_true rfl)]
  have hknown : territory ∈ names := hb.isSome_locate_iff.1 (by rw [hi]; rfl)
  refine ⟨t', ht', (mem_owners_perform hb h).2 (Or.inl ?_)⟩
  rw [Operation.enrols, if_pos hknown, howner]

/-- The owner of a territory changes only to a player that gets a record at the same time. -/
theorem Held.perform (hb : b.Sound names) (h : b.Held i) (hop : b.perform op = .ok b') :
    b'.Held i := by
  obtain ⟨t, ht, howner⟩ := h
  obtain ⟨t', ht', hturns⟩ := turns_of_perform hop ht (hb.keys_nodup t (List.mem_of_getElem? ht))
  have hkept (heq : t'.owner = t.owner) : b'.Held i :=
    ⟨t', ht', (mem_owners_perform hb hop).2 (Or.inr (heq ▸ howner))⟩
  cases op with
  | setOwner territory player =>
      by_cases hi : b.locate territory = some i
      · exact held_of_setOwner hb hi hop
      · refine hkept (hturns.owner.trans ?_)
        rw [Operation.ownerAfter, leadsTo, decide_eq_false hi]
        rfl
  | _ => exact hkept hturns.owner

end Board

namespace World

variable {r : MapRecord} {ops : List Operation} {w w' : World} {territory : String}

theorem perform_held {names : List String} {i : TerritoryId} {op : Operation}
    (hw : w.board.Sound names ∧ w.board.Held i) (hop : op ≠ .reset) (h : w.perform op = .ok w') :
    w'.board.Sound names ∧ w'.board.Held i := by
  cases op with
  | onBoard op =>
      obtain ⟨b, hb, h⟩ := bind_eq_ok_iff.mp h
      cases h
      exact ⟨hw.1.perform hb, hw.2.perform hw.1 hb⟩
  | setControlled | setTurn => cases h; exact hw
  | reset => exact absurd rfl hop

/-- The territory was given to a player, and there was no reset after that. -/
def Taken (ops : List Operation) (territory : String) : Prop :=
  ∃ before player rest,
    ops = before ++ .onBoard (.setOwner territory player) :: rest ∧ .reset ∉ rest

/-- Nobody who takes a territory goes without a record until the game starts again. -/
theorem held_of_taken {i : TerritoryId} (h : after r ops = .ok w) (htaken : Taken ops territory)
    (hi : w.board.locate territory = some i) : w.board.Held i := by
  obtain ⟨before, player, rest, rfl, hrest⟩ := htaken
  have hsound := after_sound h
  obtain ⟨w₀, hw₀, h⟩ := bind_eq_ok_iff.mp h
  rw [List.foldlM_append, bind_eq_ok_iff] at h
  obtain ⟨u, hu, h⟩ := h
  rw [List.foldlM_cons, bind_eq_ok_iff] at h
  obtain ⟨v, hv, h⟩ := h
  obtain ⟨b, hb, hv⟩ := bind_eq_ok_iff.mp hv
  cases hv
  have husound : u.board.Sound r.territories := after_sound (bind_eq_ok_iff.2 ⟨w₀, hw₀, hu⟩)
  -- Before the conquest the owner may be without a record; from there on one step after the other
  -- keeps it.
  have hheld : b.Held i :=
    Board.held_of_setOwner husound ((husound.locate_eq hsound territory).symm.trans hi) hb
  refine (foldlM_keeps_of_mem (P := fun w => w.board.Sound r.territories ∧ w.board.Held i)
    (fun w op hop w' hw hw' => ?_) ⟨husound.perform hb, hheld⟩ h).2
  exact perform_held hw (fun heq => hrest (heq ▸ hop)) hw'

end World

end Warboard
