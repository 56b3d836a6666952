import Warboard.Game
import Warboard.Moves.Legal
import Warboard.Proofs.Board.Forget
import Warboard.Proofs.Change.Expansion
import Warboard.Proofs.Checked
import Warboard.Proofs.Moves.Purchase

namespace Warboard

open Checked

variable (key : UnitKey)

/-- All of the game but the properties of the units of the key, on the board or waiting. -/
def Game.forget (g : Game) : Game := ⟨g.world.forget key, g.pending.erase key⟩

namespace Game

open Change

variable {key} {g g' : Game}

theorem getElem?_pending_forget (g : Game) (k : UnitKey) :
    (g.forget key).pending[k]? = if key = k then none else g.pending[k]? := by
  simp only [forget, Std.ExtTreeMap.getElem?_erase, Std.LawfulEqCmp.compare_eq_iff_eq]

theorem erase_erase_self (p : Pending) (k : UnitKey) : (p.erase k).erase k = p.erase k := by
  apply Std.ExtTreeMap.ext_getElem?
  intro l
  simp only [Std.ExtTreeMap.getElem?_erase]
  split <;> rfl

theorem erase_erase_comm (p : Pending) (k k' : UnitKey) :
    (p.erase k).erase k' = (p.erase k').erase k := by
  apply Std.ExtTreeMap.ext_getElem?
  intro l
  simp only [Std.ExtTreeMap.getElem?_erase]
  split <;> split <;> rfl

theorem erase_alter_self (p : Pending) (k : UnitKey)
    (f : Option (Table String) → Option (Table String)) : (p.alter k f).erase k = p.erase k := by
  apply Std.ExtTreeMap.ext_getElem?
  intro l
  simp only [Std.ExtTreeMap.getElem?_erase, Std.ExtTreeMap.getElem?_alter]
  split <;> rfl

theorem erase_alter_of_ne {k k' : UnitKey} (h : k ≠ k') (p : Pending)
    (f : Option (Table String) → Option (Table String)) :
    (p.erase k').alter k f = (p.alter k f).erase k' := by
  apply Std.ExtTreeMap.ext_getElem?
  intro l
  simp only [Std.ExtTreeMap.getElem?_erase, Std.ExtTreeMap.getElem?_alter,
    Std.LawfulEqCmp.compare_eq_iff_eq]
  by_cases hl : k = l
  · subst hl
    simp [Ne.symm h]
  · simp [hl]

/-- Waiting properties of other units are handed out alike, those of the key's units forgotten. -/
theorem addUnit_forget (i : TerritoryId) (k : UnitKey) :
    (g.forget key).addUnit i k = (g.addUnit i k).map (forget key) := by
  rw [addUnit, addUnit, getElem?_pending_forget]
  change ((g.world.board.forget key).addUnits i k 1 >>= _) = _
  rw [Board.addUnits_forget]
  cases g.world.board.addUnits i k 1 with
  | error e => rfl
  | ok b =>
      simp only [Except.map, bind, Except.bind, pure, Except.pure]
      by_cases hk : key = k
      · -- what waits for the key's units is handed out in one of the games only, but to such a unit
        subst hk
        rw [if_pos rfl]
        cases g.pending[key]? with
        | none => rfl
        | some properties =>
            simp only [forget, withBoard, World.forget, Board.forget_mark_getD,
              erase_erase_self]
      · rw [if_neg hk]
        cases g.pending[k]? with
        | none => rfl
        | some properties =>
            simp only [forget, withBoard, World.forget, Board.mark_forget_getD (Ne.symm hk),
              erase_erase_comm g.pending key k]

theorem addUnits_forget (target : String) (units : List UnitKey) :
    (g.forget key).addUnits target units = (g.addUnits target units).map (forget key) := by
  have hlocate : (g.forget key).world.board.locate target = g.world.board.locate target :=
    Board.locate_forget ..
  rw [addUnits, addUnits, hlocate]
  cases g.world.board.locate target with
  | some i => exact foldlM_map (fun g k => addUnit_forget i k) units g
  | none =>
      change (if g.world.board.owners.contains target then _ else _) = _
      split
      · change (units.foldlM (fun b k => b.addUnplaced target k.unit 1) (g.world.board.forget key)
          >>= _) = _
        rw [foldlM_map (h := Board.forget key)
          (fun b k => Board.addUnplaced_forget target k.unit 1) units]
        cases units.foldlM (fun b k => b.addUnplaced target k.unit 1) g.world.board <;> rfl
      · rfl

theorem removeUnits_forget (target : String) (units : List UnitKey) :
    (g.forget key).removeUnits target units = (g.removeUnits target units).forget key := by
  have hlocate : (g.forget key).world.board.locate target = g.world.board.locate target :=
    Board.locate_forget ..
  rw [removeUnits, removeUnits, hlocate]
  cases g.world.board.locate target with
  | some i =>
      refine congrArg (g.forget key).withBoard (Board.foldl_forget (fun b k => ?_) units _)
      rw [Board.removeUnits_forget, Option.getD_map]
  | none =>
      change (if g.world.board.owners.contains target then _ else _) = _
      split
      · exact congrArg (g.forget key).withBoard (Board.foldl_forget (fun _ _ => rfl) units _)
      · rfl

theorem markBattles_forget (records : List Battle) :
    (g.forget key).markBattles records = (g.markBattles records).forget key := by
  refine congrArg (g.forget key).withBoard (Board.foldl_forget (fun b r => ?_) records _)
  rw [Board.locate_forget]
  cases b.locate r.territory with
  | none => rfl
  | some i => exact b.startBattle_forget i

theorem setProperty_forget_of_ne {k : UnitKey} (hk : k ≠ key) (property value : String) :
    (g.forget key).setProperty k property value = (g.setProperty k property value).forget key := by
  have hset (i : TerritoryId) : (g.world.board.forget key).setProperty i k property value =
      (g.world.board.setProperty i k property value).map (Board.forget key) :=
    Board.mark_forget_of_ne hk _
  have hdefer : (g.forget key).defer k property value =
      (g.defer k property value).forget key := by
    rw [forget, forget, defer, defer, Game.mk.injEq]
    exact ⟨rfl, erase_alter_of_ne hk g.pending _⟩
  have hfound : ((g.forget key).world.board.owners[k.owner]? >>= Owner.latest >>= fun i =>
      (g.forget key).world.board.setProperty i k property value) =
      (g.world.board.owners[k.owner]? >>= Owner.latest >>= fun i =>
        g.world.board.setProperty i k property value).map (Board.forget key) := by
    refine (Option.bind_congr fun i _ => hset i).trans ?_
    exact (Option.map_bind ..).symm
  simp only [setProperty, hfound]
  cases g.world.board.owners[k.owner]? >>= Owner.latest >>= fun i =>
      g.world.board.setProperty i k property value with
  | none => exact hdefer
  | some b => rfl

/-- A property of the key's units changes nothing else, be they on the board or awaited. -/
theorem forget_setProperty (g : Game) (property value : String) :
    (g.setProperty key property value).forget key = g.forget key := by
  rw [setProperty]
  cases h : g.world.board.owners[key.owner]? >>= Owner.latest >>= fun i =>
      g.world.board.setProperty i key property value with
  | none =>
      rw [forget, forget, defer, Game.mk.injEq]
      exact ⟨rfl, erase_alter_self g.pending key _⟩
  | some b =>
      obtain ⟨i, -, hb⟩ := Option.bind_eq_some_iff.mp h
      simp only [forget, withBoard, World.forget, Board.forget_mark hb]

theorem applyEvent_forget {event : Event}
    (h : ∀ property value old, event ≠ .property key property value old) :
    (g.forget key).applyEvent event = (g.applyEvent event).map (forget key) := by
  cases event with
  | role player => rfl
  | battles records => exact congrArg Except.ok (markBattles_forget records)
  | ownership player territory previous =>
      refine congrArg Except.ok ?_
      change ((g.world.board.forget key).setOwner territory player |>.map _).getD _ = _
      rw [Board.setOwner_forget]
      cases g.world.board.setOwner territory player <;> rfl
  | addUnits target units => exact addUnits_forget target units
  | removeUnits target units => exact congrArg Except.ok (removeUnits_forget target units)
  | resource player quantity =>
      change ((g.world.board.forget key).adjustBalance player quantity >>= _) =
        (g.world.board.adjustBalance player quantity >>= _ : Checked Game).map _
      rw [Board.adjustBalance_forget]
      cases g.world.board.adjustBalance player quantity <;> rfl
  | property k property value old =>
      have hk : k ≠ key := fun hk => h property value old (hk ▸ rfl)
      exact congrArg Except.ok (setProperty_forget_of_ne hk property value)

/-- The games differ in properties of the key's units at most. -/
def SameBut (key : UnitKey) (g g' : Game) : Prop := g.forget key = g'.forget key

theorem applyEvent_sameBut (h : SameBut key g g') (event : Event) :
    Alike (SameBut key) (g.applyEvent event) (g'.applyEvent event) := by
  by_cases he : ∃ property value old, event = .property key property value old
  · obtain ⟨property, value, old, rfl⟩ := he
    refine .ok ?_
    rw [SameBut, forget_setProperty, forget_setProperty]
    exact h
  · push Not at he
    apply Alike.of_map_eq
    rw [← applyEvent_forget he, ← applyEvent_forget he, h]

theorem apply_sameBut (h : SameBut key g g') (line : Text) :
    Alike (SameBut key) (g.apply line) (g'.apply line) :=
  .foldlM (fun _ _ event h => applyEvent_sameBut h event) (leaves line) h

/-- The game after the lines. -/
def applyAll (g : Game) (lines : List Text) : Checked Game := lines.foldlM apply g

theorem applyAll_sameBut (h : SameBut key g g') (lines : List Text) :
    Alike (SameBut key) (g.applyAll lines) (g'.applyAll lines) :=
  .foldlM (fun _ _ line h => apply_sameBut h line) lines h

theorem apply_of_read {line : Text} {event : Event} (h : read line = .ok (.single event)) :
    g.apply line = g.applyEvent event := by
  rw [apply, leaves, events_cons, h]
  simp only [events, List.foldlM_cons, List.foldlM_nil, bind_pure]

end Game

theorem Territory.hasFactory_forget (t : Territory) (player : String) :
    (t.forget key).hasFactory player = t.hasFactory player := by
  simp only [hasFactory, forget, List.any_map]
  congr 1
  funext s
  simp

theorem Board.factoryNames_forget (b : Board) (player : String) :
    (b.forget key).factoryNames player = b.factoryNames player := by
  have hfactory : (fun t : Territory => t.hasFactory player) ∘ Territory.forget key =
      fun t => t.hasFactory player := funext fun t => t.hasFactory_forget key player
  rw [factoryNames_eq, factoryNames_eq, forget, List.filter_map, List.map_map, hfactory]
  rfl

namespace LegalMove

theorem movement_forget (w : World) (player : String) (phase : Phase)
    (policy : TerritoryId → Visit) :
    MovementMove.legal (w.forget key) player phase policy =
      MovementMove.legal w player phase policy := by
  have hstack (t : Territory) (i : TerritoryId) (s : Stack) :
      MovementMove.ofStack (w.forget key) player phase policy (t.forget key) i (s.forget key) =
        MovementMove.ofStack w player phase policy t i s := by
    have hreached : MovementMove.ofReached (w.forget key) phase (t.forget key) (s.forget key) =
        MovementMove.ofReached w phase t s := by
      funext r
      simp only [MovementMove.ofReached, World.forget_board, Board.nameOf_forget,
        Board.ownerOf_forget, Stack.forget_key, Stack.forget_quantity]
      rfl
    simp only [MovementMove.ofStack, MovementMove.isMobile, hreached, World.forget_board,
      World.forget_catalog, Board.neighborsOf_forget, Stack.forget_key, Stack.forget_quantity]
    rfl
  simp only [MovementMove.legal, World.forget_board, Board.forget, List.zipIdx_map,
    List.flatMap_map]
  apply List.flatMap_congr
  rintro ⟨t, i⟩ -
  simp only [Prod.map, id, Territory.forget, List.flatMap_map]
  exact List.flatMap_congr fun s _ => hstack t i s

/-- No legal move depends on marks. -/
theorem all_forget (w : World) (player : String) (phase : Phase) :
    all (w.forget key) player phase = all w player phase := by
  cases phase with
  | purchase =>
      simp only [all, PurchaseMove.legal, World.forget_board, Board.factoryNames_forget]
      rfl
  | combat =>
      have hattack : MovementMove.attack (w.forget key) player = MovementMove.attack w player := by
        funext i
        simp only [MovementMove.attack, World.forget_board, Board.ownerOf_forget]
      simp only [all, MovementMove.combat, hattack, movement_forget]
  | noncombat =>
      have hreposition :
          MovementMove.reposition (w.forget key) player = MovementMove.reposition w player := by
        funext i
        simp only [MovementMove.reposition, World.forget_board, Board.ownerOf_forget]
      simp only [all, MovementMove.noncombat, hreposition, movement_forget]
  | place =>
      simp only [all, Placement.legal, World.forget_board, Board.factoryNames_forget]
      rfl

end LegalMove

namespace Game

open Change

variable {key}

/-- A property line about one unit leaves no trace outside that unit's properties, wherever it stands
among the lines: with and without it the lines overflow alike, or they end in games that differ in
these properties alone and have the same legal moves. -/
theorem applyAll_property_confined (g : Game) {property value old : String} {line : Text}
    (hline : read line = .ok (.single (.property key property value old)))
    (before after : List Text) :
    Alike (fun x y => SameBut key x y ∧ ∀ player phase,
        LegalMove.all x.world player phase = LegalMove.all y.world player phase)
      (g.applyAll (before ++ line :: after)) (g.applyAll (before ++ after)) := by
  have hsame : Alike (SameBut key) (g.applyAll (before ++ line :: after))
      (g.applyAll (before ++ after)) := by
    simp only [applyAll, List.foldlM_append, List.foldlM_cons, apply_of_read hline]
    refine .bind_self fun g => ?_
    exact applyAll_sameBut (forget_setProperty g property value) after
  refine hsame.imp fun x y h => ⟨h, fun player phase => ?_⟩
  have hworld : x.world.forget key = y.world.forget key := congrArg Game.world h
  rw [← LegalMove.all_forget key x.world, hworld, LegalMove.all_forget]

/-- The stacks that have fought, in map and stack order. -/
def flags (g : Game) : List Bool :=
  g.world.board.territories.flatMap fun t => t.units.map fun s => s.marks.wasInCombat

def fought : Text :=
  "Property change, unit:armour owned by Russians property:wasInCombat newValue:true oldValue:false".toList

def reinforced : Text := "Add unit change.  Add to: Moscow units: [armour owned by Russians]".toList

/-- The Russians have no armour yet, so the property waits for it and is seen once it comes. -/
theorem applyAll_property_confined_armour :
    read fought = .ok (.single (.property ⟨"armour", "Russians"⟩ "wasInCombat" "true" "false")) ∧
      ((ofWorld PurchaseMove.rearming).applyAll [fought, reinforced]).map flags ≠
        ((ofWorld PurchaseMove.rearming).applyAll [reinforced]).map flags ∧
      Alike (fun x y => SameBut ⟨"armour", "Russians"⟩ x y ∧ ∀ player phase,
          LegalMove.all x.world player phase = LegalMove.all y.world player phase)
        ((ofWorld PurchaseMove.rearming).applyAll ([] ++ fought :: [reinforced]))
        ((ofWorld PurchaseMove.rearming).applyAll ([] ++ [reinforced])) := by
  have hread : read fought =
      .ok (.single (.property ⟨"armour", "Russians"⟩ "wasInCombat" "true" "false")) := by
    decide +kernel
  refine ⟨hread, ?_, applyAll_property_confined _ hread [] [reinforced]⟩
  decide +kernel

end Game

end Warboard
