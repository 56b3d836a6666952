import Warboard.Proofs.Board.Footprint
import Warboard.Proofs.Board.Invariant
import Warboard.Proofs.Game.Waiting

namespace Warboard

open Checked Change

namespace Stack

variable {key : UnitKey} {units : List Stack}

theorem marksOf_eq_none_iff : marksOf key units = none ↔ ∀ s ∈ units, s.key ≠ key := by
  simp [marksOf, find?]

theorem marksOf_eq_some {m : Marks} (h : marksOf key units = some m) :
    ∃ before s after, units = before ++ s :: after ∧ (∀ u ∈ before, u.key ≠ key) ∧ s.key = key := by
  obtain ⟨s, hs, -⟩ := Option.map_eq_some_iff.1 h
  obtain ⟨hkey, before, after, hunits, hbefore⟩ := List.find?_eq_some_iff_append.1 hs
  exact ⟨before, s, after, hunits, by simpa using hbefore, by simpa using hkey⟩

theorem marked_append {before after : List Stack} {s : Stack} (f : Marks → Marks)
    (hbefore : ∀ s ∈ before, s.key ≠ key) (hs : s.key = key) :
    marked key f (before ++ s :: after) = before ++ { s with marks := f s.marks } :: after := by
  induction before with
  | nil => rw [List.nil_append, List.nil_append, marked_cons, if_pos hs]
  | cons u before ih =>
      obtain ⟨hu, hbefore⟩ := List.forall_mem_cons.1 hbefore
      rw [List.cons_append, List.cons_append, marked_cons, if_neg hu, ih hbefore]

end Stack

namespace Board

theorem restocks_remark (b : Board) (i : TerritoryId) (key : UnitKey) (f : Marks → Marks) :
    Restocks i [key] b (b.remark i key f) := by
  rw [remark, mark_getD]
  exact restocks_updateTerritory fun t _ => Stack.besides_marked f t.units

end Board

namespace Change.Event

/-- The event without what it says of battles in unknown territories and of the loss of units that
are not there. -/
def known (b : Board) : Event → Event
  | .battles records => .battles (records.filter fun r => (b.locate r.territory).isSome)
  | .removeUnits target units => .removeUnits target (units.filter (b.holds target))
  | event => event

/-- All that the event tells of is unknown to the board. -/
def Unknown (b : Board) : Event → Prop
  | .battles records => ∀ r ∈ records, b.locate r.territory = none
  | .ownership _ territory _ => b.locate territory = none
  | .addUnits target _ => b.locate target = none ∧ target ∉ b.owners
  | .removeUnits target units =>
    b.locate target = none ∧ target ∉ b.owners ∨ ∀ key ∈ units, b.holds target key = false
  | .role _ | .resource .. | .property .. => False

end Change.Event

namespace Game

variable {g g' g'' : Game} {b : Board} {event : Event} {i : TerritoryId} {key : UnitKey}
  {target : String} {units : List UnitKey}

/-- What became of each part of the board and of the properties that wait for the units of a key.
All else stays. -/
structure Changes (g g' : Game)
    (site : TerritoryId → Option Territory → Option Territory → Prop)
    (record : String → Option Owner → Option Owner → Prop)
    (waiting : UnitKey → Option (Table String) → Option (Table String) → Prop) : Prop where
  setting : g'.world = { g.world with board := g'.world.board }
  board : g.world.board.Changes g'.world.board site record
  pending : ∀ key, waiting key g.pending[key]? g'.pending[key]?

/-- Where the event may leave something in the game, and what. -/
def Footprint (g g' : Game) : Event → Prop
  | .role player => g' = { g with world := { g.world with controlled := some player } }
  | .battles records =>
    g.Changes g' (fun i t t' => t' = t.map fun t =>
      if ∃ r ∈ records, g.world.board.locate r.territory = some i then { t with battle := true }
      else t) Unchanged Unchanged
  | .ownership player territory _ =>
    match g.world.board.locate territory with
    | some i =>
      g.Changes g' (OnlyAt i fun t t' => t' = t.map fun t => { t with owner := player })
        (OnlyAt player fun o o' => o' = some { o.getD (.new player) with latest := some i })
        Unchanged
    | none => g' = g
  | .addUnits target units =>
    match g.world.board.locate target with
    | some i =>
      g.Changes g' (OnlyAt i (Option.Rel (Territory.Restocked units))) Unchanged
        fun key p p' => p' = if key ∈ units then none else p
    | none =>
      if target ∈ g.world.board.owners then
        g.Changes g' Unchanged
          (OnlyAt target (Option.Rel (Owner.Repooled (units.map UnitKey.unit)))) Unchanged
      else g' = g
  | .removeUnits target units =>
    match g.world.board.locate target with
    | some i =>
      g.Changes g' (OnlyAt i (Option.Rel (Territory.Restocked units))) Unchanged Unchanged
    | none =>
      if target ∈ g.world.board.owners then
        g.Changes g' Unchanged
          (OnlyAt target (Option.Rel (Owner.Repooled (units.map UnitKey.unit)))) Unchanged
      else g' = g
  | .resource player quantity =>
    ∃ balance, balance.toInt = (g.world.board.balanceOf player).toInt + quantity.toInt ∧
      g.Changes g' Unchanged
        (OnlyAt player fun o o' => o' = some { o.getD (.new player) with balance := balance })
        Unchanged
  | .property key property value _ =>
    (∃ i t before s after, g.world.board.owners[key.owner]? >>= Owner.latest = some i ∧
      g.world.board.territories[i]? = some t ∧ t.units = before ++ s :: after ∧
      (∀ u ∈ before, u.key ≠ key) ∧ s.key = key ∧
      g.Changes g' (OnlyAt i fun _ t' => t' = some
          { t with units := before ++ { s with marks := s.marks.set property value } :: after })
        Unchanged Unchanged) ∨
    (∀ i t, g.world.board.owners[key.owner]? >>= Owner.latest = some i →
      g.world.board.territories[i]? = some t → ∀ s ∈ t.units, s.key ≠ key) ∧
      g.Changes g' Unchanged Unchanged
        (OnlyAt key fun p p' => p' = some ((p.getD ∅).insert property value))

theorem Changes.withBoard {site : TerritoryId → Option Territory → Option Territory → Prop}
    {record : String → Option Owner → Option Owner → Prop}
    (h : g.world.board.Changes b site record) : g.Changes (g.withBoard b) site record Unchanged :=
  ⟨rfl, h, fun _ => rfl⟩

/-- Nothing has changed but stacks of the keys in the territory, and nothing waits for these. -/
def Reinforces (i : TerritoryId) (keys : List UnitKey) (g g' : Game) : Prop :=
  g.Changes g' (OnlyAt i (Option.Rel (Territory.Restocked keys))) Unchanged
    fun key p p' => p' = if key ∈ keys then none else p

theorem Reinforces.refl (i : TerritoryId) (g : Game) : Reinforces i [] g g where
  setting := rfl
  board := Board.Restocks.refl i [] g.world.board
  pending _ := by simp

theorem Reinforces.append (keys keys' : List UnitKey) (g g' g'' : Game) (h : Reinforces i keys g g')
    (h' : Reinforces i keys' g' g'') : Reinforces i (keys ++ keys') g g'' where
  setting := by rw [h'.setting, h.setting]
  board := Board.Restocks.append keys keys' _ _ _ h.board h'.board
  pending key := by
    rw [h'.pending, h.pending]
    by_cases hkey : key ∈ keys <;> simp [hkey]

theorem addUnit_reinforces (h : g.addUnit i key = .ok g') : Reinforces i [key] g g' := by
  rw [addUnit_eq] at h
  cases hb : g.world.board.addUnits i key 1 with
  | error e => rw [hb] at h; cases h
  | ok b =>
      rw [hb] at h
      cases h
      refine ⟨rfl, ?_, fun k => ?_⟩
      · -- the unit that comes and the marks that it takes change stacks of one key
        have hadd := Board.restocks_addUnits hb
        have hmarks := b.restocks_remark i key fun m => m.setAll (g.waitingFor key)
        have hboth := Board.Restocks.append [key] [key] _ _ _ hadd hmarks
        rw [Board.Restocks, Territory.restocked_append_self] at hboth
        exact hboth
      · simp only [Std.ExtTreeMap.getElem?_erase, Std.LawfulEqCmp.compare_eq_iff_eq,
          List.mem_singleton, eq_comm (a := key)]

theorem role_footprint (g : Game) (player : String) :
    Footprint g { g with world := { g.world with controlled := some player } } (.role player) := rfl

theorem battles_footprint (g : Game) (records : List Battle) :
    Footprint g (g.markBattles records) (.battles records) :=
  .withBoard (Board.changes_battles records g.world.board)

theorem ownership_footprint (g : Game) (player territory previous : String) :
    Footprint g (((g.world.board.setOwner territory player).map g.withBoard).getD g)
      (.ownership player territory previous) := by
  rw [Footprint, Board.setOwner]
  cases g.world.board.locate territory with
  | none => rfl
  | some i =>
      have hsite := g.world.board.changes_updateTerritory i fun t => { t with owner := player }
      have hrecord := g.world.board.changes_updateOwner player fun o => { o with latest := some i }
      exact .withBoard ⟨hsite.territories, hrecord.owners⟩

theorem addUnits_footprint (h : g.addUnits target units = .ok g') :
    Footprint g g' (.addUnits target units) := by
  rw [addUnits] at h
  rw [Footprint]
  cases hl : g.world.board.locate target with
  | some i =>
      rw [hl] at h
      exact foldlM_relates (Reinforces.refl i) Reinforces.append
        (fun _ _ _ => addUnit_reinforces) h
  | none =>
      rw [hl] at h
      dsimp only at h ⊢
      simp only [Std.ExtTreeMap.contains_iff_mem] at h
      split at h
      · rename_i howner
        obtain ⟨b, hb, h⟩ := bind_eq_ok_iff.mp h
        cases h
        rw [if_pos howner]
        exact .withBoard (Board.repools_foldlM (fun _ _ _ => Board.repools_addUnplaced) howner hb)
      · rename_i howner
        rw [if_neg howner]
        cases h
        rfl

theorem removeUnits_footprint (g : Game) (target : String) (units : List UnitKey) :
    Footprint g (g.removeUnits target units) (.removeUnits target units) := by
  rw [removeUnits, Footprint]
  cases g.world.board.locate target with
  | some i =>
      exact .withBoard (foldl_relates (Board.Restocks.refl i []) Board.Restocks.append
        (fun b key => b.restocks_removeUnits i key 1) units g.world.board)
  | none =>
      simp only [Std.ExtTreeMap.contains_iff_mem]
      split
      · rename_i howner
        refine .withBoard (Board.repools_foldlM (fun b key b' hplayer h => ?_) howner
          List.foldlM_pure)
        cases h
        exact Board.repools_removeUnplaced hplayer key.unit 1
      · rfl

theorem resource_footprint {player : String} {quantity : Int64}
    (h : g.world.board.adjustBalance player quantity = .ok b) :
    Footprint g (g.withBoard b) (.resource player quantity) := by
  obtain ⟨balance, hbalance, h⟩ := bind_eq_ok_iff.mp h
  cases h
  exact ⟨balance, addAmount_eq_ok_iff.1 hbalance, .withBoard (g.world.board.changes_updateOwner ..)⟩

theorem property_footprint (g : Game) (key : UnitKey) (property value old : String) :
    Footprint g (g.setProperty key property value) (.property key property value old) := by
  by_cases hawaits : g.Awaits key
  · right
    rw [setProperty_of_awaits hawaits]
    refine ⟨fun i t hi ht => ?_, rfl, .refl _, fun k => ⟨fun hk => ?_, fun hk => ?_⟩⟩
    · have hmarks := hawaits i hi
      rw [Board.marksAt, ht] at hmarks
      exact Stack.marksOf_eq_none_iff.1 hmarks
    · rw [hk]
      exact Std.ExtTreeMap.getElem?_alter_self
    · rw [defer, Std.ExtTreeMap.getElem?_alter, if_neg]
      simpa using Ne.symm hk
  · left
    rw [Awaits] at hawaits
    push Not at hawaits
    obtain ⟨i, hi, hmarks⟩ := hawaits
    obtain ⟨m, hm⟩ := Option.ne_none_iff_exists'.1 hmarks
    obtain ⟨t, ht, htm⟩ := Option.bind_eq_some_iff.1 hm
    obtain ⟨before, s, after, hunits, hbefore, hs⟩ := Stack.marksOf_eq_some htm
    refine ⟨i, t, before, s, after, hi, ht, hunits, hbefore, hs, ?_⟩
    have hset : (g.world.board.owners[key.owner]? >>= Owner.latest >>= fun i =>
        g.world.board.setProperty i key property value) =
          some (g.world.board.remark i key fun m => m.set property value) := by
      rw [hi]
      exact Board.mark_eq_some hm
    rw [setProperty, hset, Board.remark, Board.mark_getD]
    refine .withBoard ((g.world.board.changes_updateTerritory i _).imp (fun j t' h => ?_)
      fun _ _ h => h)
    refine ⟨fun hj => ?_, h.2⟩
    rw [h.1 hj, hj, ht, Option.map_some, hunits, Stack.marked_append _ hbefore hs]

theorem applyEvent_known (g : Game) (event : Event) :
    g.applyEvent (event.known g.world.board) = g.applyEvent event := by
  cases event with
  | role | ownership | addUnits | resource | property => rfl
  | battles records =>
      exact congrArg (fun b => Except.ok (g.withBoard b))
        (Board.foldl_battleOf_located records g.world.board)
  | removeUnits target units =>
      refine congrArg Except.ok ?_
      rw [removeUnits, removeUnits]
      cases hl : g.world.board.locate target with
      | some i =>
          refine congrArg g.withBoard (Eq.symm (foldl_filter_of_idle ?_ fun key _ hkey => ?_))
          · exact fun b key k => b.removeUnits_comm i key k 1
          · rw [Board.holds, hl] at hkey
            refine Board.removeUnits_of_absent fun t ht => ?_
            simpa [ht] using hkey
      | none =>
          dsimp only
          split
          · rename_i howner
            refine congrArg g.withBoard (Eq.symm (foldl_filter_of_idle ?_ fun key _ hkey => ?_))
            · exact fun b key k => b.removeUnplaced_comm target key.unit k.unit 1
            · rw [Board.holds, hl] at hkey
              refine Board.removeUnplaced_of_absent (Std.ExtTreeMap.contains_iff_mem.1 howner) ?_
              rw [← Std.ExtTreeMap.contains_iff_mem, Bool.not_eq_true]
              exact hkey
          · rfl

theorem applyEvent_unknown (h : event.Unknown g.world.board) : g.applyEvent event = .ok g := by
  cases event with
  | role | resource | property => cases h
  | battles records =>
      have hnone : records.filter (fun r => (g.world.board.locate r.territory).isSome) = [] :=
        List.filter_eq_nil_iff.2 fun r hr => by simp [h r hr]
      rw [← applyEvent_known, Event.known, hnone]
      rfl
  | ownership player territory previous =>
      rw [applyEvent, Board.setOwner, show g.world.board.locate territory = none from h]
      rfl
  | addUnits target units =>
      rw [applyEvent, addUnits, h.1, if_neg]
      simpa using h.2
  | removeUnits target units =>
      obtain ⟨hl, howner⟩ | habsent := h
      · rw [applyEvent, removeUnits, hl, if_neg]
        simpa using howner
      · have hnone : units.filter (g.world.board.holds target) = [] :=
          List.filter_eq_nil_iff.2 fun key hkey => by simp [habsent key hkey]
        rw [← applyEvent_known, Event.known, hnone, applyEvent, removeUnits]
        cases g.world.board.locate target with
        | some i => rfl
        | none => exact congrArg Except.ok (ite_self g)

/-- An event leaves everything outside its footprint alone. What it says of unknown things counts
for nothing, and if it speaks of nothing else the game is as before. -/
theorem applyEvent_footprint (h : g.applyEvent event = .ok g') :
    Footprint g g' event ∧ g.applyEvent (event.known g.world.board) = .ok g' ∧
      (event.Unknown g.world.board → g' = g) := by
  refine ⟨?_, g.applyEvent_known event ▸ h, fun hunknown => ?_⟩
  · cases event with
    | role player => cases h; exact g.role_footprint player
    | battles records => cases h; exact g.battles_footprint records
    | ownership player territory previous =>
        cases h
        exact g.ownership_footprint player territory previous
    | addUnits target units => exact addUnits_footprint h
    | removeUnits target units => cases h; exact g.removeUnits_footprint target units
    | resource player quantity =>
        obtain ⟨b, hb, h⟩ := bind_eq_ok_iff.mp h
        cases h
        exact resource_footprint hb
    | property key property value old =>
        cases h
        exact g.property_footprint key property value old
  · exact Except.ok.inj (h.symm.trans (applyEvent_unknown hunknown))

/-- Half of what these tell of is unknown: the bay, the player Blue, and armour. -/
def rumours : List Event :=
  let infantry : UnitKey := ⟨"infantry", "Red"⟩
  let armour : UnitKey := ⟨"armour", "Red"⟩
  [.battles [⟨"0a", "Bay"⟩, ⟨"0b", "Cape"⟩], .ownership "Blue" "Bay" neutral,
    .ownership "Blue" "Cape" neutral, .addUnits "Sound" [armour, infantry],
    .removeUnits "Sound" [armour, infantry, infantry, infantry], .addUnits "Blue" [armour],
    .removeUnits "Red" [armour], .resource "Blue" 2,
    .property infantry "wasInCombat" "true" "false"]

theorem applyEvent_footprint_rumours : ∃ w, World.ofRecord World.twins = .ok w ∧
    ∀ event ∈ rumours, ∃ g', (ofWorld w).applyEvent event = .ok g' ∧
      Footprint (ofWorld w) g' event ∧ (ofWorld w).applyEvent (event.known w.board) = .ok g' ∧
      (event.Unknown w.board → g' = ofWorld w) := by
  have hok : ((World.ofRecord World.twins >>= fun w =>
      rumours.mapM (ofWorld w).applyEvent).map fun _ => ()).toOption = some () := by
    decide +kernel
  obtain ⟨games, hok, -⟩ := exists_ok_of_map hok
  obtain ⟨w, hw, hok⟩ := bind_eq_ok_iff.mp hok
  refine ⟨w, hw, fun event hevent => ?_⟩
  obtain ⟨g', hg'⟩ := exists_ok_of_mapM hok hevent
  exact ⟨g', hg', applyEvent_footprint hg'⟩

end Game

end Warboard
