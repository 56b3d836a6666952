import Warboard.Proofs.Game.Operation

namespace Warboard

open Checked

/-- What no event changes in a territory. -/
def Territory.site (t : Territory) : String × Std.ExtTreeSet TerritoryId × Bool :=
  (t.name, t.neighbors, t.victoryCity)

namespace Board

variable {b b' b'' : Board} {i : TerritoryId} {op : Operation}

/-- The boards have the same territories, in the same order and with the same connections. -/
def SameGround (b b' : Board) : Prop :=
  b'.territories.map Territory.site = b.territories.map Territory.site

namespace SameGround

theorem refl (b : Board) : SameGround b b := rfl

theorem trans (h : SameGround b b') (h' : SameGround b' b'') : SameGround b b'' :=
  Eq.trans h' h

theorem of_territories (h : b'.territories = b.territories) : SameGround b b' := by
  rw [SameGround, h]

theorem updateTerritory {f : Territory → Territory} (hf : ∀ t, (f t).site = t.site) :
    SameGround b (b.updateTerritory i f) := map_updateTerritory hf

theorem names_eq (h : SameGround b b') :
    b'.territories.map Territory.name = b.territories.map Territory.name := by
  have hname := congrArg (List.map Prod.fst) h
  rw [List.map_map, List.map_map] at hname
  exact hname

theorem locate_eq (h : SameGround b b') (name : String) : b'.locate name = b.locate name :=
  locateIn_congr h.names_eq

theorem neighborsOf_eq (h : SameGround b b') (i : TerritoryId) :
    b'.neighborsOf i = b.neighborsOf i := by
  have hi := congrArg (fun sites => sites[i]?.map fun site => site.2.1.toList) h
  simp only [List.getElem?_map, Option.map_map] at hi
  exact congrArg (Option.getD · []) hi

end SameGround

/-- Does the operation change which territories are connected? -/
def Operation.isLink : Operation → Bool
  | .connect .. | .disconnect .. => true
  | _ => false

theorem sameGround_addUnits {key : UnitKey} {n : UInt32} (h : b.addUnits i key n = .ok b') :
    SameGround b b' := by
  obtain ⟨t, units, -, -, rfl⟩ | ⟨-, rfl⟩ := addUnits_eq_ok_iff.1 h
  · exact .updateTerritory fun _ => rfl
  · exact .refl b

/-- Only where it says so does an operation change a connection, and none renames a territory. -/
theorem sameGround_perform (hop : op.isLink = false) (h : b.perform op = .ok b') :
    SameGround b b' := by
  cases op with
  | setOwner territory player =>
      cases h
      refine getD_keeps (.refl b) fun c hc => ?_
      obtain ⟨i, -, rfl⟩ := Option.map_eq_some_iff.1 hc
      exact .updateTerritory fun _ => rfl
  | addUnits i key n => exact sameGround_addUnits h
  | removeUnits =>
      cases h
      refine getD_keeps (.refl b) fun c hc => ?_
      obtain ⟨t, units, -, -, rfl⟩ := removeUnits_eq_some_iff.1 hc
      exact .updateTerritory fun _ => rfl
  | setProperty =>
      cases h
      refine getD_keeps (.refl b) fun c hc => ?_
      obtain ⟨t, units, -, -, rfl⟩ := mark_eq_some_iff.1 hc
      exact .updateTerritory fun _ => rfl
  | startBattle =>
      cases h
      exact .updateTerritory fun _ => rfl
  | addUnplaced | adjustBalance =>
      obtain ⟨total, -, h⟩ := bind_eq_ok_iff.mp h
      cases h
      exact .of_territories rfl
  | removeUnplaced | clearUnplaced =>
      cases h
      exact .of_territories rfl
  | connect | disconnect => cases hop

end Board

namespace Game

open Change

variable {g g' : Game} {b b' : Board} {event : Event}

theorem Performs.sameGround {ops : List Board.Operation} (h : Performs b b' ops)
    (hops : ∀ op ∈ ops, op.isLink = false) : b.SameGround b' := by
  obtain ⟨all, hall, rfl⟩ := h
  refine foldlM_keeps_of_mem (fun c op hop d hc hd => ?_) (.refl b) hall
  refine hc.trans (Board.sameGround_perform ?_ hd)
  cases hmark : op.isMark with
  | false => exact hops op (List.mem_filter.2 ⟨hop, by rw [hmark]; rfl⟩)
  | true =>
      cases op with
      | setProperty => rfl
      | _ => cases hmark

theorem isLink_of_mem_operations {op : Board.Operation} (h : op ∈ event.operations b) :
    op.isLink = false := by
  cases event with
  | role | property => cases h
  | battles records =>
      obtain ⟨r, -, hr⟩ := List.mem_filterMap.1 h
      obtain ⟨i, -, rfl⟩ := Option.map_eq_some_iff.1 hr
      rfl
  | ownership | resource =>
      obtain rfl := List.mem_singleton.1 h
      rfl
  | addUnits | removeUnits =>
      obtain ⟨key, ⟨i, -, rfl⟩ | ⟨-, rfl⟩⟩ := Board.mem_toward h <;> rfl

/-- Whatever a line of the engine reports, the map stays what it is. -/
theorem apply_sameGround {line : Text} (h : g.apply line = .ok g') :
    g.world.board.SameGround g'.world.board := by
  refine foldlM_keeps (P := fun g' => g.world.board.SameGround g'.world.board)
    (fun g₁ event g₂ h₁ h₂ => h₁.trans ?_) (.refl _) h
  exact (applyEvent_performs h₂).sameGround fun _ => isLink_of_mem_operations

end Game

end Warboard
