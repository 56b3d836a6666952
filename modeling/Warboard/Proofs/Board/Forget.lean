import Warboard.Board.World
import Warboard.Proofs.Board.Update
import Warboard.Proofs.Checked

namespace Warboard

variable (key : UnitKey)

/-- The stack as if it had come just now, if it is one of the key. -/
def Stack.forget (s : Stack) : Stack := if s.key = key then { s with marks := .fresh } else s

def Territory.forget (t : Territory) : Territory := { t with units := t.units.map (Stack.forget key) }

def Board.forget (b : Board) : Board :=
  { b with territories := b.territories.map (Territory.forget key) }

def World.forget (w : World) : World := { w with board := w.board.forget key }

theorem World.forget_board (w : World) : (w.forget key).board = w.board.forget key := rfl

theorem World.forget_catalog (w : World) : (w.forget key).catalog = w.catalog := rfl

namespace Stack

variable {key}

@[simp] theorem forget_key (s : Stack) : (s.forget key).key = s.key := by
  rw [forget]
  split <;> rfl

@[simp] theorem forget_quantity (s : Stack) : (s.forget key).quantity = s.quantity := by
  rw [forget]
  split <;> rfl

theorem forget_withQuantity (s : Stack) (n : UInt32) :
    ({ s with quantity := n } : Stack).forget key = { s.forget key with quantity := n } := by
  by_cases hs : s.key = key <;> simp [forget, hs]

theorem addTo_forget (k : UnitKey) (n : UInt32) (units : List Stack) :
    addTo k n (units.map (forget key)) = (addTo k n units).map (List.map (forget key)) := by
  induction units with
  | nil =>
      by_cases hk : k = key <;> simp [addTo, forget, hk, Except.map]
  | cons s rest ih =>
      rw [List.map_cons, addTo, addTo, forget_key, forget_quantity, ih]
      by_cases hs : s.key = k
      · simp only [if_pos hs]
        cases addQuantity s.quantity n with
        | error e => rfl
        | ok q => simp [bind, Except.bind, pure, Except.pure, Except.map, forget_withQuantity]
      · simp only [if_neg hs]
        cases addTo k n rest <;> rfl

theorem removeFrom_forget (k : UnitKey) (n : UInt32) (units : List Stack) :
    removeFrom k n (units.map (forget key)) =
      (removeFrom k n units).map (List.map (forget key)) := by
  induction units with
  | nil => rfl
  | cons s rest ih =>
      rw [List.map_cons, removeFrom, removeFrom, forget_key, forget_quantity, ih]
      by_cases hs : s.key = k
      · simp only [if_pos hs, Option.map_some]
        split
        · rfl
        · simp [forget_withQuantity]
      · simp only [if_neg hs, Option.map_map]
        rfl

/-- The marks of other units are changed alike. -/
theorem markIn_forget_of_ne {k : UnitKey} (hk : k ≠ key) (f : Marks → Marks) (units : List Stack) :
    markIn k f (units.map (forget key)) = (markIn k f units).map (List.map (forget key)) := by
  induction units with
  | nil => rfl
  | cons s rest ih =>
      rw [List.map_cons, markIn, markIn, forget_key, ih]
      by_cases hs : s.key = k
      · have hne : s.key ≠ key := fun h => hk (hs.symm.trans h)
        simp [hs, forget, hk]
      · simp only [if_neg hs, Option.map_map]
        rfl

/-- Marks of the units themselves do not count. -/
theorem map_forget_markIn {f : Marks → Marks} {units units' : List Stack}
    (h : markIn key f units = some units') : units'.map (forget key) = units.map (forget key) := by
  induction units generalizing units' with
  | nil => cases h
  | cons s rest ih =>
      rw [markIn] at h
      by_cases hs : s.key = key
      · rw [if_pos hs] at h
        cases h
        simp [forget, hs]
      · rw [if_neg hs] at h
        obtain ⟨later, hlater, rfl⟩ := Option.map_eq_some_iff.1 h
        rw [List.map_cons, List.map_cons, ih hlater]

end Stack

namespace Board

variable {key} {b : Board} {i : TerritoryId}

theorem getElem?_forget (b : Board) (i : TerritoryId) :
    (b.forget key).territories[i]? = b.territories[i]?.map (Territory.forget key) :=
  List.getElem?_map

theorem locateIn_forget (name : String) (ts : List Territory) :
    locateIn name (ts.map (Territory.forget key)) = locateIn name ts := by
  induction ts with
  | nil => rfl
  | cons t ts ih =>
      rw [List.map_cons, locateIn, locateIn, ih]
      rfl

theorem locate_forget (b : Board) (name : String) : (b.forget key).locate name = b.locate name :=
  locateIn_forget name b.territories

theorem updateTerritory_forget {f f' : Territory → Territory}
    (hf : ∀ t, (f t).forget key = f' (t.forget key)) :
    (b.updateTerritory i f).forget key = (b.forget key).updateTerritory i f' := by
  rw [Board.mk.injEq]
  refine ⟨List.ext_getElem? fun l => ?_, rfl⟩
  rw [getElem?_forget, getElem?_updateTerritory]
  rw [getElem?_updateTerritory, getElem?_forget, Option.map_map, Option.map_map]
  congr 1
  funext t
  by_cases hil : i = l <;> simp [hil, hf]

theorem withUnits_forget (units : List Stack) :
    (b.updateTerritory i fun t => { t with units := units }).forget key =
      (b.forget key).updateTerritory i fun t =>
        { t with units := units.map (Stack.forget key) } :=
  updateTerritory_forget fun _ => rfl

theorem setOwner_forget (territory player : String) :
    (b.forget key).setOwner territory player =
      (b.setOwner territory player).map (forget key) := by
  rw [setOwner, setOwner, locate_forget, Option.map_map]
  congr 1
  funext i
  rw [← updateTerritory_forget (f := fun t => { t with owner := player }) fun _ => rfl]
  rfl

theorem startBattle_forget (b : Board) (i : TerritoryId) :
    (b.forget key).startBattle i = (b.startBattle i).forget key := by
  symm
  exact updateTerritory_forget fun _ => rfl

theorem addUnits_forget (k : UnitKey) (n : UInt32) :
    (b.forget key).addUnits i k n = (b.addUnits i k n).map (forget key) := by
  rw [addUnits, addUnits, getElem?_forget]
  cases b.territories[i]? with
  | none => rfl
  | some t =>
      simp only [Option.map_some, Territory.forget, Stack.addTo_forget]
      cases Stack.addTo k n t.units with
      | error e => rfl
      | ok units =>
          simp only [bind, Except.bind, pure, Except.pure, Except.map, withUnits_forget]

theorem removeUnits_forget (k : UnitKey) (n : UInt32) :
    (b.forget key).removeUnits i k n = (b.removeUnits i k n).map (forget key) := by
  rw [removeUnits, removeUnits, getElem?_forget]
  cases b.territories[i]? with
  | none => rfl
  | some t =>
      simp only [Option.map_some, Territory.forget, Option.bind_eq_bind, Option.bind_some,
        Stack.removeFrom_forget]
      cases Stack.removeFrom k n t.units with
      | none => rfl
      | some units => simp [withUnits_forget]

theorem mark_forget_of_ne {k : UnitKey} (hk : k ≠ key) (f : Marks → Marks) :
    (b.forget key).mark i k f = (b.mark i k f).map (forget key) := by
  rw [mark, mark, getElem?_forget]
  cases b.territories[i]? with
  | none => rfl
  | some t =>
      simp only [Option.map_some, Territory.forget, Option.bind_eq_bind, Option.bind_some,
        Stack.markIn_forget_of_ne hk]
      cases Stack.markIn k f t.units with
      | none => rfl
      | some units => simp [withUnits_forget]

theorem forget_mark {b' : Board} {f : Marks → Marks} (h : b.mark i key f = some b') :
    b'.forget key = b.forget key := by
  obtain ⟨t, units, ht, hunits, rfl⟩ := mark_eq_some_iff.1 h
  rw [withUnits_forget, Stack.map_forget_markIn hunits, Board.mk.injEq]
  refine ⟨List.ext_getElem? fun l => ?_, rfl⟩
  rw [getElem?_updateTerritory, getElem?_forget]
  by_cases hil : i = l
  · subst hil
    simp [ht, Territory.forget]
  · simp [hil, Function.comp_def]

theorem forget_mark_getD (f : Marks → Marks) :
    ((b.mark i key f).getD b).forget key = b.forget key := by
  cases h : b.mark i key f with
  | none => rfl
  | some b' => exact forget_mark h

theorem mark_forget_getD {k : UnitKey} (hk : k ≠ key) (f : Marks → Marks) :
    ((b.forget key).mark i k f).getD (b.forget key) = ((b.mark i k f).getD b).forget key := by
  rw [mark_forget_of_ne hk, Option.getD_map]

theorem addUnplaced_forget (player unit : String) (n : UInt32) :
    (b.forget key).addUnplaced player unit n =
      (b.addUnplaced player unit n).map (forget key) := by
  rw [addUnplaced, addUnplaced]
  change (addQuantity ((b.unplacedOf player).getD unit 0) n >>= _) = _
  cases addQuantity ((b.unplacedOf player).getD unit 0) n <;> rfl

theorem adjustBalance_forget (player : String) (delta : Int64) :
    (b.forget key).adjustBalance player delta =
      (b.adjustBalance player delta).map (forget key) := by
  rw [adjustBalance, adjustBalance]
  change (addAmount (b.balanceOf player) delta >>= _) = _
  cases addAmount (b.balanceOf player) delta <;> rfl

theorem foldl_forget {α : Type} {f : Board → α → Board}
    (hf : ∀ b a, f (b.forget key) a = (f b a).forget key) (xs : List α) (b : Board) :
    xs.foldl f (b.forget key) = (xs.foldl f b).forget key :=
  List.foldl_hom (Board.forget key) hf

/-- What can be seen of the territories besides their stacks does not depend on marks. -/
theorem nameOf_forget (b : Board) : (b.forget key).nameOf = b.nameOf := by
  funext i
  rw [nameOf, nameOf, getElem?_forget, Option.map_map]
  rfl

theorem ownerOf_forget (b : Board) : (b.forget key).ownerOf = b.ownerOf := by
  funext i
  rw [ownerOf, ownerOf, getElem?_forget, Option.map_map]
  rfl

theorem neighborsOf_forget (b : Board) : (b.forget key).neighborsOf = b.neighborsOf := by
  funext i
  rw [neighborsOf, neighborsOf, getElem?_forget, Option.map_map]
  rfl

end Board

end Warboard
