import Warboard.Proofs.Board.Invariant

namespace Warboard

open Checked

/-- The worlds have the same rules and the same start. -/
def World.SameSetting (v w : World) : Prop := v.catalog = w.catalog ∧ v.start = w.start

namespace World.SameSetting

theorem refl (w : World) : w.SameSetting w := ⟨rfl, rfl⟩

theorem trans {u v w : World} (h : u.SameSetting v) (h' : v.SameSetting w) : u.SameSetting w :=
  ⟨h.1.trans h'.1, h.2.trans h'.2⟩

end World.SameSetting

namespace World

theorem ofRecord_eq {r : MapRecord} {w : World} (h : ofRecord r = .ok w) :
    w = ⟨.ofRecord r, w.start, w.start, none, 1⟩ := by
  obtain ⟨b, -, h⟩ := bind_eq_ok_iff.mp h
  cases h
  rfl

theorem reset_eq {r : MapRecord} {v w : World} (hw : ofRecord r = .ok w)
    (h : v.SameSetting w) : v.reset = { w with controlled := v.controlled } := by
  obtain ⟨catalog, board, start, controlled, turn⟩ := v
  obtain ⟨rfl, rfl⟩ := h
  rw [ofRecord_eq hw]
  rfl

variable {w w' : World} {op : Operation}

/-- Nothing that is done to a world reaches the start that it can go back to. -/
theorem perform_sameSetting (h : w.perform op = .ok w') : w'.SameSetting w := by
  cases op with
  | onBoard op =>
      obtain ⟨b, -, h⟩ := bind_eq_ok_iff.mp h
      cases h
      exact .refl w
  | setControlled | setTurn | reset => cases h; exact .refl w

/-- The player that the operation chooses to move for. -/
def Operation.chosen : Operation → Option String
  | .setControlled player => some player
  | _ => none

theorem controlled_perform (h : w.perform op = .ok w') :
    w'.controlled = op.chosen.or w.controlled := by
  cases op with
  | onBoard op =>
      obtain ⟨b, -, h⟩ := bind_eq_ok_iff.mp h
      cases h
      rfl
  | setControlled | setTurn | reset => cases h; rfl

theorem controlled_foldlM {ops : List Operation} (h : ops.foldlM perform w = .ok w') :
    w'.controlled = (ops.filterMap Operation.chosen).getLast?.or w.controlled := by
  induction ops generalizing w with
  | nil => cases h; rfl
  | cons op ops ih =>
      rw [List.foldlM_cons, bind_eq_ok_iff] at h
      obtain ⟨u, hu, h⟩ := h
      rw [ih h, controlled_perform hu, List.filterMap_cons]
      cases op.chosen with
      | none => rfl
      | some player => simp [List.getLast?_cons]

/-- Whatever was done to it, a world that is reset is the one that the map starts with, except for
the player that was chosen last. -/
theorem reset_after {r : MapRecord} {ops : List Operation} (h : after r ops = .ok w) :
    ∃ w₀, ofRecord r = .ok w₀ ∧
      w.reset = { w₀ with controlled := (ops.filterMap Operation.chosen).getLast? } := by
  obtain ⟨w₀, hw₀, h⟩ := bind_eq_ok_iff.mp h
  have hsetting : w.SameSetting w₀ := by
    refine foldlM_keeps (P := fun w => w.SameSetting w₀) (fun u op v hu hv => ?_) (.refl w₀) h
    exact (perform_sameSetting hv).trans hu
  have hnobody : w₀.controlled = none := congrArg controlled (ofRecord_eq hw₀)
  refine ⟨w₀, hw₀, ?_⟩
  rw [reset_eq hw₀ hsetting, controlled_foldlM h, hnobody, Option.or_none]

/-- Two games, the first of them broken off. -/
def twoGames : List Operation :=
  [.setControlled "Red", .onBoard (.setOwner "Cape" "Blue"),
    .onBoard (.disconnect "Sound" "Cape"), .onBoard (.adjustBalance "Green" 7), .setTurn 4, .reset,
    .setControlled "Blue", .onBoard (.addUnplaced "Green" "armour" 2),
    .onBoard (.setProperty 2 ⟨"infantry", "Red"⟩ "wasInCombat" "true"),
    .onBoard (.disconnect "Cape" "Sound"), .onBoard (.connect "Cape" "Cape"), .setTurn 9]

theorem reset_after_twoGames : ∃ w w₀, after twins twoGames = .ok w ∧ ofRecord twins = .ok w₀ ∧
    (w.board.neighborsOf 1, w.turn) ≠ (w₀.board.neighborsOf 1, w₀.turn) ∧
    w.reset = { w₀ with controlled := some "Blue" } := by
  have hgame : ((after twins twoGames).map fun w => (w.board.neighborsOf 1, w.turn)).toOption =
      some ([], 9) := by
    decide +kernel
  obtain ⟨w, hw, hturned⟩ := exists_ok_of_map hgame
  obtain ⟨w₀, hw₀, hreset⟩ := reset_after hw
  refine ⟨w, w₀, hw, hw₀, ?_, hreset⟩
  rw [hturned, ofRecord_eq hw₀]
  simp

end World

end Warboard
