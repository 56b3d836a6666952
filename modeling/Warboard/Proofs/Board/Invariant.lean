import Warboard.Map.Builder
import Warboard.Proofs.Board.Start

namespace Warboard.World

open Checked

variable {r : MapRecord} {w w' : World}

/-- The board and the start that it can go back to both keep a property. -/
def Both (P : Board → Prop) (w : World) : Prop := P w.board ∧ P w.start

/-- If the operation adds units, it adds at least one. -/
def Operation.AddsSome : Operation → Prop
  | .onBoard op => op.AddsSome
  | _ => True

theorem Both.perform {P : Board → Prop} (h : w.Both P) {op : Operation}
    (hop : ∀ o b b', op = .onBoard o → P b → b.perform o = .ok b' → P b')
    (hw : w.perform op = .ok w') : w'.Both P := by
  cases op with
  | onBoard o =>
      obtain ⟨b, hb, hw⟩ := bind_eq_ok_iff.mp hw
      cases hw
      exact ⟨hop o w.board b rfl h.1 hb, h.2⟩
  | setControlled player => cases hw; exact h
  | setTurn turn => cases hw; exact h
  | reset => cases hw; exact ⟨h.2, h.2⟩

theorem ofRecord_both {P : Board → Prop} (hstart : ∀ b, Board.ofRecord r = .ok b → P b)
    (h : ofRecord r = .ok w) : w.Both P := by
  obtain ⟨b, hb, h⟩ := bind_eq_ok_iff.mp h
  cases h
  exact ⟨hstart b hb, hstart b hb⟩

theorem after_keeps {P : Board → Prop} {ops : List Operation}
    (hstart : ∀ b, Board.ofRecord r = .ok b → P b)
    (hops : ∀ op ∈ ops, ∀ o b b', op = .onBoard o → P b → b.perform o = .ok b' → P b')
    (h : after r ops = .ok w) : w.Both P := by
  obtain ⟨w₀, hw₀, h⟩ := bind_eq_ok_iff.mp h
  refine foldlM_keeps_of_mem (fun w op hop w' hw hw' => ?_) (ofRecord_both hstart hw₀) h
  exact hw.perform (hops op hop) hw'

theorem after_sound {ops : List Operation} (h : after r ops = .ok w) :
    w.board.Sound r.territories :=
  (after_keeps (fun _ => Board.ofRecord_sound) (fun _ _ _ _ _ _ hb hb' => hb.perform hb') h).1

theorem after_positive {ops : List Operation} (hr : ∀ u ∈ r.startingUnits, 0 < u.quantity)
    (hops : ∀ op ∈ ops, op.AddsSome) (h : after r ops = .ok w) : w.board.Positive := by
  refine (after_keeps (fun _ => Board.ofRecord_positive hr) ?_ h).1
  rintro op hop o b b' rfl hb hb'
  exact hb.perform (hops _ hop) hb'

/-- Whatever is done to a world of the map, its board stays one of that map, every name of a territory
leads to a territory of that name, and without empty additions nothing on it is empty. -/
theorem after_represents {ops : List Operation} (h : after r ops = .ok w) :
    w.board.Sound r.territories ∧
    (∀ i j, j ∈ w.board.neighborsOf i → i < r.territories.length ∧ j < r.territories.length) ∧
    (∀ name, (w.board.locate name).isSome ↔ name ∈ r.territories) ∧
    (∀ name i, w.board.locate name = some i → r.territories[i]? = some name) ∧
    ((∀ u ∈ r.startingUnits, 0 < u.quantity) → (∀ op ∈ ops, op.AddsSome) → w.board.Positive) := by
  have hsound := after_sound h
  refine ⟨hsound, ?_, fun _ => hsound.isSome_locate_iff, ?_,
    fun hr hops => after_positive hr hops h⟩
  · intro i j hj
    rw [← hsound.length_eq]
    exact ⟨Board.lt_length_of_mem_neighborsOf hj, hsound.lt_length hj⟩
  · intro name i hi
    obtain ⟨t, ht, rfl⟩ := Board.locateIn_eq_some hi
    rw [← hsound.names_eq, List.getElem?_map, ht, Option.map_some]

/-- Two territories of one name, and a connection from that name to itself. -/
def twins : MapRecord :=
  MapRecord.empty
    |>.addTerritory "Sound" "Red"
    |>.addTerritory "Cape" neutral
    |>.addTerritory "Sound" "Red"
    |>.connect "Sound" "Cape"
    |>.connect "Sound" "Sound"
    |>.addPlayer "Red" 3
    |>.placeUnits "Sound" "infantry" "Red" 2

/-- Players without a record come in, and the last units of a stack go. -/
def landing : List Operation :=
  [.onBoard (.setOwner "Sound" "Blue"), .onBoard (.addUnplaced "Green" "armour" 1),
    .onBoard (.removeUnits 2 ⟨"infantry", "Red"⟩ 2), .onBoard (.addUnits 0 ⟨"armour", "Blue"⟩ 1),
    .onBoard (.connect "Sound" "Sound"), .setTurn 2]

theorem after_represents_landing : ∃ w, after twins landing = .ok w ∧
    w.board.Sound twins.territories ∧ w.board.Positive := by
  have hok : (after twins landing).isOk := by decide +kernel
  cases h : after twins landing with
  | error e => rw [h] at hok; cases hok
  | ok w =>
      obtain ⟨hsound, -, -, -, hpositive⟩ := after_represents h
      refine ⟨w, rfl, hsound, hpositive ?_ ?_⟩
      · decide
      · simp [landing, Operation.AddsSome, Board.Operation.AddsSome]

end Warboard.World
