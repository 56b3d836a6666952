import Warboard.Proofs.Board.Reset
import Warboard.Session.Basic

namespace Warboard

open Checked

/-- The worlds differ at most in the board and in the player that is moved for. -/
def World.SameCourse (v w : World) : Prop := v.SameSetting w ∧ v.turn = w.turn

namespace World.SameCourse

theorem refl (w : World) : w.SameCourse w := ⟨.refl w, rfl⟩

theorem trans {u v w : World} (h : u.SameCourse v) (h' : v.SameCourse w) : u.SameCourse w :=
  ⟨h.1.trans h'.1, h.2.trans h'.2⟩

theorem eq {v w : World} (h : v.SameCourse w) :
    v = { w with board := v.board, controlled := v.controlled } := by
  obtain ⟨⟨hcatalog, hstart⟩, hturn⟩ := h
  rw [← hcatalog, ← hstart, ← hturn]

end World.SameCourse

namespace Game

open Change

theorem addUnit_sameCourse {g g' : Game} {i : TerritoryId} {key : UnitKey}
    (h : g.addUnit i key = .ok g') : g'.world.SameCourse g.world := by
  rw [addUnit, bind_eq_ok_iff] at h
  obtain ⟨b, -, h⟩ := h
  split at h <;> cases h <;> exact .refl g.world

theorem addUnits_sameCourse {g g' : Game} {target : String} {units : List UnitKey}
    (h : g.addUnits target units = .ok g') : g'.world.SameCourse g.world := by
  rw [addUnits] at h
  split at h
  · exact foldlM_keeps (fun g₁ key g₂ h₁ h₂ => (addUnit_sameCourse h₂).trans h₁) (.refl g.world) h
  · split at h
    · obtain ⟨b, -, h⟩ := bind_eq_ok_iff.mp h
      cases h
      exact .refl g.world
    · cases h
      exact .refl g.world

theorem applyEvent_sameCourse {g g' : Game} {event : Event} (h : g.applyEvent event = .ok g') :
    g'.world.SameCourse g.world := by
  cases event with
  | role player => cases h; exact .refl g.world
  | battles records => cases h; exact .refl g.world
  | ownership player territory previous =>
      cases h
      cases g.world.board.setOwner territory player <;> exact .refl g.world
  | addUnits target units => exact addUnits_sameCourse h
  | removeUnits target units =>
      cases h
      rw [removeUnits]
      split
      · exact .refl g.world
      · split <;> exact .refl g.world
  | resource player quantity =>
      obtain ⟨b, -, h⟩ := bind_eq_ok_iff.mp h
      cases h
      exact .refl g.world
  | property key property value old =>
      cases h
      rw [setProperty]
      split <;> exact .refl g.world

theorem apply_sameCourse {g g' : Game} {line : Text} (h : g.apply line = .ok g') :
    g'.world.SameCourse g.world :=
  foldlM_keeps (fun _ _ _ h₁ h₂ => (applyEvent_sameCourse h₂).trans h₁) (.refl g.world) h

theorem apply_sameSetting {g g' : Game} {line : Text} (h : g.apply line = .ok g') :
    g'.world.SameSetting g.world := (apply_sameCourse h).1

end Game

end Warboard
