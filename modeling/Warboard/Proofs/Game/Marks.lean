import Warboard.Proofs.Board.Invariant
import Warboard.Proofs.Game.History

namespace Warboard

open Checked Change

/-- Marks that have the property still have it when this property of the units is set. -/
def Marks.Admits (P : Marks → Prop) (property value : String) : Prop :=
  ∀ m, P m → P (m.set property value)

theorem Marks.setAll_of_admits {P : Marks → Prop} {properties : Table String} {m : Marks}
    (h : ∀ property value, properties[property]? = some value → Marks.Admits P property value)
    (hm : P m) : P (m.setAll properties) := by
  rw [Marks.setAll, Std.ExtTreeMap.foldl_eq_foldl_toList]
  exact List.foldlRecOn properties.toList _ hm fun m hm p hp =>
    h p.1 p.2 (Std.ExtTreeMap.mem_toList_iff_getElem?_eq_some.1 hp) m hm

namespace Stack

variable {P : Marks → Prop} {units units' : List Stack} {key : UnitKey} {n : UInt32}

theorem marks_addTo (hunits : ∀ s ∈ units, P s.marks) (hfresh : P .fresh)
    (h : addTo key n units = .ok units') : ∀ s ∈ units', P s.marks := by
  induction units generalizing units' with
  | nil =>
      cases h
      exact List.forall_mem_singleton.2 hfresh
  | cons s rest ih =>
      obtain ⟨hs, hrest⟩ := List.forall_mem_cons.1 hunits
      rw [addTo] at h
      split at h
      · obtain ⟨q, -, h⟩ := bind_eq_ok_iff.mp h
        cases h
        exact List.forall_mem_cons.2 ⟨hs, hrest⟩
      · obtain ⟨later, hlater, h⟩ := bind_eq_ok_iff.mp h
        cases h
        exact List.forall_mem_cons.2 ⟨hs, ih hrest hlater⟩

theorem marks_removeFrom (hunits : ∀ s ∈ units, P s.marks)
    (h : removeFrom key n units = some units') : ∀ s ∈ units', P s.marks := by
  induction units generalizing units' with
  | nil => cases h
  | cons s rest ih =>
      obtain ⟨hs, hrest⟩ := List.forall_mem_cons.1 hunits
      rw [removeFrom] at h
      split at h
      · cases h
        split
        · exact hrest
        · exact List.forall_mem_cons.2 ⟨hs, hrest⟩
      · obtain ⟨later, hlater, rfl⟩ := Option.map_eq_some_iff.1 h
        exact List.forall_mem_cons.2 ⟨hs, ih hrest hlater⟩

theorem marks_markIn {f : Marks → Marks} (hunits : ∀ s ∈ units, P s.marks)
    (hf : ∀ m, P m → P (f m)) (h : markIn key f units = some units') : ∀ s ∈ units', P s.marks := by
  induction units generalizing units' with
  | nil => cases h
  | cons s rest ih =>
      obtain ⟨hs, hrest⟩ := List.forall_mem_cons.1 hunits
      rw [markIn] at h
      split at h
      · cases h
        exact List.forall_mem_cons.2 ⟨hf s.marks hs, hrest⟩
      · obtain ⟨later, hlater, rfl⟩ := Option.map_eq_some_iff.1 h
        exact List.forall_mem_cons.2 ⟨hs, ih hrest hlater⟩

end Stack

namespace Board

variable {P : Marks → Prop} {b b' : Board} {i : TerritoryId} {key : UnitKey} {n : UInt32}

def Marked (P : Marks → Prop) (b : Board) : Prop := ∀ t ∈ b.territories, ∀ s ∈ t.units, P s.marks

namespace Marked

theorem updateTerritory (h : b.Marked P) {f : Territory → Territory}
    (hunits : ∀ t, b.territories[i]? = some t → ∀ s ∈ (f t).units, P s.marks) :
    (b.updateTerritory i f).Marked P := by
  intro t ht
  obtain ht | ⟨u, hu, rfl⟩ := mem_updateTerritory ht
  · exact h t ht
  · exact hunits u hu

theorem updateFlag (h : b.Marked P) {f : Territory → Territory}
    (hunits : ∀ t, (f t).units = t.units) : (b.updateTerritory i f).Marked P :=
  h.updateTerritory fun t ht => hunits t ▸ h t (List.mem_of_getElem? ht)

theorem addUnits (h : b.Marked P) (hfresh : P .fresh) (hb : b.addUnits i key n = .ok b') :
    b'.Marked P := by
  obtain ⟨t, units, ht, hunits, rfl⟩ | ⟨-, rfl⟩ := addUnits_eq_ok_iff.1 hb
  · exact h.updateTerritory fun _ _ =>
      Stack.marks_addTo (h t (List.mem_of_getElem? ht)) hfresh hunits
  · exact h

theorem removeUnits (h : b.Marked P) (hb : b.removeUnits i key n = some b') : b'.Marked P := by
  obtain ⟨t, units, ht, hunits, rfl⟩ := removeUnits_eq_some_iff.1 hb
  exact h.updateTerritory fun _ _ => Stack.marks_removeFrom (h t (List.mem_of_getElem? ht)) hunits

theorem mark (h : b.Marked P) {f : Marks → Marks} (hf : ∀ m, P m → P (f m))
    (hb : b.mark i key f = some b') : b'.Marked P := by
  obtain ⟨t, units, ht, hunits, rfl⟩ := mark_eq_some_iff.1 hb
  exact h.updateTerritory fun _ _ => Stack.marks_markIn (h t (List.mem_of_getElem? ht)) hf hunits

theorem connect (h : b.Marked P) {origin target : String}
    (hb : b.connect origin target = some b') : b'.Marked P := by
  obtain ⟨i, j, -, -, rfl⟩ := connect_eq_some_iff.1 hb
  refine (h.updateFlag ?_).updateFlag ?_
  · exact fun _ => rfl
  · exact fun _ => rfl

end Marked

theorem ofRecord_marked {r : MapRecord} (hfresh : P .fresh) (h : ofRecord r = .ok b) :
    b.Marked P := by
  refine ofRecord_keeps (P := Marked P) ?_ ?_ ?_ ?_ h
  · intro t ht
    obtain ⟨name, -, rfl⟩ := List.mem_map.1 ht
    exact fun s hs => absurd hs List.not_mem_nil
  · exact fun b u _ i b' hb hb' => hb.addUnits hfresh hb'
  · exact fun b origin target b' hb hb' => hb.connect hb'
  · exact fun b i hb => hb.updateFlag fun _ => rfl

end Board

/-- Does the event set a property of units? Then it is one that may be set. -/
def Change.Event.Admitted (P : Marks → Prop) : Event → Prop
  | .property _ name value _ => Marks.Admits P name value
  | _ => True

namespace Game

variable {P : Marks → Prop} {g g' : Game} {event : Event}

/-- All marks have a property, and what waits for units keeps it. -/
structure Marked (P : Marks → Prop) (g : Game) : Prop where
  board : g.world.board.Marked P
  pending : ∀ (key : UnitKey) (properties : Table String), g.pending[key]? = some properties →
    ∀ (property value : String), properties[property]? = some value →
      Marks.Admits P property value

namespace Marked

theorem withBoard (h : g.Marked P) {b : Board} (hb : b.Marked P) : (g.withBoard b).Marked P :=
  ⟨hb, h.pending⟩

theorem addUnit (h : g.Marked P) (hfresh : P .fresh) {i : TerritoryId} {key : UnitKey}
    (hg : g.addUnit i key = .ok g') : g'.Marked P := by
  obtain ⟨b, hb, hg⟩ := bind_eq_ok_iff.mp hg
  have hadd := h.board.addUnits hfresh hb
  split at hg
  · rename_i properties hproperties
    cases hg
    -- What waited for the units is set now, and does not wait any longer.
    refine ⟨Board.getD_keeps hadd fun _ hc => hadd.mark (fun m hm => ?_) hc,
      fun key' properties' h' => ?_⟩
    · exact Marks.setAll_of_admits (h.pending key properties hproperties) hm
    · rw [Std.ExtTreeMap.getElem?_erase] at h'
      split at h'
      · cases h'
      · exact h.pending key' properties' h'
  · cases hg
    exact h.withBoard hadd

theorem addUnits (h : g.Marked P) (hfresh : P .fresh) {target : String} {units : List UnitKey}
    (hg : g.addUnits target units = .ok g') : g'.Marked P := by
  rw [Game.addUnits] at hg
  split at hg
  · exact foldlM_keeps (fun _ _ _ hg hg' => hg.addUnit hfresh hg') h hg
  · split at hg
    · obtain ⟨b, hb, hg⟩ := bind_eq_ok_iff.mp hg
      cases hg
      refine h.withBoard (foldlM_keeps (fun b key b' hb hb' => ?_) h.board hb)
      obtain ⟨total, -, hb'⟩ := bind_eq_ok_iff.mp hb'
      cases hb'
      exact hb
    · cases hg
      exact h

theorem removeUnits (h : g.Marked P) (target : String) (units : List UnitKey) :
    (g.removeUnits target units).Marked P := by
  rw [Game.removeUnits]
  split
  · refine h.withBoard (List.foldlRecOn units _ h.board fun b hb key _ => ?_)
    exact Board.getD_keeps hb fun _ hc => hb.removeUnits hc
  · split
    · exact h.withBoard (List.foldlRecOn units _ h.board fun b hb key _ => hb)
    · exact h

theorem markBattles (h : g.Marked P) (records : List Battle) :
    (g.markBattles records).Marked P := by
  refine h.withBoard (List.foldlRecOn records _ h.board fun b hb r _ => ?_)
  refine Board.getD_keeps hb fun c hc => ?_
  obtain ⟨i, -, rfl⟩ := Option.map_eq_some_iff.1 hc
  exact hb.updateFlag fun _ => rfl

theorem setProperty (h : g.Marked P) {key : UnitKey} {property value : String}
    (hset : Marks.Admits P property value) : (g.setProperty key property value).Marked P := by
  rw [Game.setProperty]
  split
  · rename_i b hb
    obtain ⟨i, -, hb⟩ := Option.bind_eq_some_iff.1 hb
    exact h.withBoard (h.board.mark hset hb)
  · refine ⟨h.board, fun key' properties h' => ?_⟩
    -- Of this unit's properties one is new, and the others waited before.
    rw [Game.defer, Std.ExtTreeMap.getElem?_alter] at h'
    split at h'
    · cases h'
      intro property' value' hvalue
      rw [Std.ExtTreeMap.getElem?_insert] at hvalue
      split at hvalue
      · rename_i hproperty
        rw [Std.LawfulEqCmp.compare_eq_iff_eq] at hproperty
        cases hvalue
        exact hproperty ▸ hset
      · cases hold : g.pending[key]? with
        | none =>
            rw [hold, Option.getD_none, Std.ExtTreeMap.getElem?_empty] at hvalue
            cases hvalue
        | some properties =>
            rw [hold, Option.getD_some] at hvalue
            exact h.pending key properties hold property' value' hvalue
    · exact h.pending key' properties h'

theorem applyEvent (h : g.Marked P) (hfresh : P .fresh) (hevent : event.Admitted P)
    (hg : g.applyEvent event = .ok g') : g'.Marked P := by
  cases event with
  | role player => cases hg; exact ⟨h.board, h.pending⟩
  | battles records => cases hg; exact h.markBattles records
  | ownership player territory previous =>
      cases hg
      cases hb : g.world.board.setOwner territory player with
      | none => exact h
      | some b =>
          obtain ⟨i, -, rfl⟩ := Option.map_eq_some_iff.1 hb
          exact h.withBoard (h.board.updateFlag fun _ => rfl)
  | addUnits target units => exact h.addUnits hfresh hg
  | removeUnits target units => cases hg; exact h.removeUnits target units
  | resource player quantity =>
      obtain ⟨b, hb, hg⟩ := bind_eq_ok_iff.mp hg
      obtain ⟨balance, -, hb⟩ := bind_eq_ok_iff.mp hb
      cases hb
      cases hg
      exact h.withBoard h.board
  | property key property value old => cases hg; exact h.setProperty hevent

end Marked

/-- What is true of fresh marks stays true of all if the lines set only what keeps it. -/
theorem applyAll_marked {r : MapRecord} {w : World} {lines : List Text}
    (hw : World.ofRecord r = .ok w) (hfresh : P .fresh)
    (hlines : ∀ event ∈ lines.flatMap leaves, event.Admitted P)
    (h : (ofWorld w).applyAll lines = .ok g) : g.world.board.Marked P := by
  obtain ⟨hb, -⟩ := World.ofRecord_both (fun _ hb => hb) hw
  have hstart : (ofWorld w).Marked P := by
    refine ⟨Board.ofRecord_marked hfresh hb, fun key properties h => ?_⟩
    rw [ofWorld, Std.ExtTreeMap.getElem?_empty] at h
    cases h
  rw [applyAll, ← foldlM_flatMap_leaves] at h
  exact (foldlM_keeps_of_mem (fun _ event hevent _ hg hg' =>
    hg.applyEvent hfresh (hlines event hevent) hg') hstart h).board

end Game

end Warboard
