import Warboard.Proofs.Board.Enrolment
import Warboard.Proofs.Game.History

namespace Warboard

open Checked Change

/-- The player that has a record after the event in any case. Units that come or go make none. -/
def Change.Event.enrols (names : List String) : Event → Option String
  | .ownership player territory _ => if territory ∈ names then some player else none
  | .resource player _ => some player
  | _ => none

/-- The lines tell of a player who takes a territory of the map or is paid. -/
def MapRecord.Brings (r : MapRecord) (lines : List Text) (name : String) : Prop :=
  ∃ event ∈ lines.flatMap leaves, event.enrols r.territories = some name

namespace Board

variable {b : Board} {names : List String} {name : String}

theorem mem_owners_of_toward {target : String} {units : List UnitKey}
    {there : TerritoryId → UnitKey → Operation} {pooled : UnitKey → Operation}
    (hthere : ∀ i key, (there i key).enrols names = none)
    (hpooled : ∀ key, (pooled key).enrols names = some target) {op : Operation}
    (hop : op ∈ b.toward target units there pooled) (h : op.enrols names = some name) :
    name ∈ b.owners := by
  rw [toward] at hop
  split at hop
  · obtain ⟨key, -, rfl⟩ := List.mem_map.1 hop
    rw [hthere] at h
    cases h
  · split at hop
    · rename_i htarget
      obtain ⟨key, -, rfl⟩ := List.mem_map.1 hop
      rw [hpooled] at h
      cases h
      exact htarget
    · cases hop

theorem exists_enrols_operations_iff {event : Event} :
    (∃ op ∈ event.operations b, op.enrols names = some name) ∨ name ∈ b.owners ↔
      event.enrols names = some name ∨ name ∈ b.owners := by
  have hnew (hevent : event.enrols names = none)
      (hops : ∀ op ∈ event.operations b, op.enrols names = some name → name ∈ b.owners) :
      (∃ op ∈ event.operations b, op.enrols names = some name) ∨ name ∈ b.owners ↔
        event.enrols names = some name ∨ name ∈ b.owners := by
    rw [hevent]
    constructor
    · rintro (⟨op, hop, h⟩ | h)
      · exact Or.inr (hops op hop h)
      · exact Or.inr h
    · rintro (h | h)
      · cases h
      · exact Or.inr h
  cases event with
  | role | property => exact hnew rfl fun _ hop => absurd hop List.not_mem_nil
  | battles records =>
      refine hnew rfl fun op hop h => ?_
      obtain ⟨i, rfl⟩ := mem_operations_battles hop
      cases h
  | ownership | resource => simp only [Event.operations, List.mem_singleton, exists_eq_left]; rfl
  | addUnits | removeUnits =>
      refine hnew rfl fun op hop h => mem_owners_of_toward ?_ ?_ hop h
      · exact fun _ _ => rfl
      · exact fun _ => rfl

end Board

namespace Game

variable {g g' : Game} {names : List String} {name : String}

theorem Performs.mem_owners {b b' : Board} {ops : List Board.Operation} (h : Performs b b' ops)
    (hb : b.Sound names) :
    name ∈ b'.owners ↔ (∃ op ∈ ops, op.enrols names = some name) ∨ name ∈ b.owners := by
  obtain ⟨all, hall, rfl⟩ := h
  rw [Board.mem_owners_foldlM hb hall]
  refine or_congr_left (exists_congr fun op => ?_)
  rw [List.mem_filter, and_assoc]
  refine and_congr_right fun _ => iff_and_self.2 fun henrols => ?_
  cases op <;> first | rfl | cases henrols

theorem mem_owners_applyEvent {event : Event} (hg : g.world.board.Sound names)
    (h : g.applyEvent event = .ok g') : name ∈ g'.world.board.owners ↔
      event.enrols names = some name ∨ name ∈ g.world.board.owners :=
  ((applyEvent_performs h).mem_owners hg).trans Board.exists_enrols_operations_iff

theorem mem_owners_applyEvents {events : List Event} (hg : g.world.board.Sound names)
    (h : events.foldlM applyEvent g = .ok g') : name ∈ g'.world.board.owners ↔
      (∃ event ∈ events, event.enrols names = some name) ∨ name ∈ g.world.board.owners := by
  induction events generalizing g with
  | nil =>
      cases h
      simp
  | cons event events ih =>
      rw [List.foldlM_cons, bind_eq_ok_iff] at h
      obtain ⟨g₁, hg₁, h⟩ := h
      rw [ih (applyEvent_sound hg hg₁) h, mem_owners_applyEvent hg hg₁]
      simp only [List.exists_mem_cons_iff, or_assoc, or_left_comm]

/-- A player has a record if the map has one, or if the lines bring the player into the game. -/
theorem mem_owners_applyAll {r : MapRecord} {w : World} {lines : List Text}
    (hw : World.ofRecord r = .ok w) (h : (ofWorld w).applyAll lines = .ok g) :
    name ∈ g.world.board.owners ↔ r.Brings lines name ∨ r.Enrols name := by
  obtain ⟨hb, -⟩ := World.ofRecord_both (fun _ hb => hb) hw
  rw [applyAll, ← foldlM_flatMap_leaves] at h
  rw [mem_owners_applyEvents (Board.ofRecord_sound hb) h]
  exact or_congr_right (Board.mem_owners_ofRecord hb)

theorem applyAll_sound {r : MapRecord} {w : World} {lines : List Text}
    (hw : World.ofRecord r = .ok w) (h : (ofWorld w).applyAll lines = .ok g) :
    g.world.board.Sound r.territories := by
  obtain ⟨hb, -⟩ := World.ofRecord_both (fun _ hb => hb) hw
  rw [applyAll, ← foldlM_flatMap_leaves] at h
  exact applyEvents_sound (Board.ofRecord_sound hb) h

end Game

end Warboard
