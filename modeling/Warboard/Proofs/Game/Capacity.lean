import Warboard.Map.Builder
import Warboard.Proofs.Change.Expansion
import Warboard.Proofs.Game.Operation
import Warboard.Proofs.Table

namespace Warboard

open Checked Change

/-- A loop that counts one more for each item fails only if there are too many items of a kind. -/
theorem Checked.foldlM_count_eq_error_iff {σ α κ : Type} [DecidableEq κ] {step : σ → α → Checked σ}
    (P : σ → Prop) (count : σ → κ → Nat) (kind : α → κ) (hlt : ∀ s k, count s k < UInt32.size)
    (hfull : ∀ s a e, P s →
      (step s a = .error e ↔ e = .add ∧ UInt32.size ≤ count s (kind a) + 1))
    (hnext : ∀ s a s', P s → step s a = .ok s' →
      P s' ∧ ∀ k, count s' k = count s k + if kind a = k then 1 else 0)
    {s : σ} (hs : P s) (xs : List α) (e : Overflow) :
    xs.foldlM step s = .error e ↔
      e = .add ∧ ∃ k, UInt32.size ≤ count s k + (xs.map kind).count k := by
  rw [foldlM_weigh_eq_error_iff P count kind (fun _ => 1) hlt hfull hnext hs]
  have hsum (k : κ) :
      (xs.map fun a => if kind a = k then 1 else 0).sum = (xs.map kind).count k := by
    induction xs with
    | nil => rfl
    | cons a xs ih =>
        rw [List.map_cons, List.sum_cons, ih, List.map_cons, List.count_cons, Nat.add_comm]
        simp only [beq_iff_eq]
  simp only [hsum]

namespace Board

variable {b b' : Board} {i : TerritoryId} {key k : UnitKey} {n : UInt32}

def quantityAt (b : Board) (i : TerritoryId) (key : UnitKey) : Nat :=
  (b.territories[i]?.map fun t => Stack.quantityIn key t.units).getD 0

theorem quantityAt_lt (b : Board) (i : TerritoryId) (key : UnitKey) :
    b.quantityAt i key < UInt32.size := by
  rw [quantityAt]
  cases b.territories[i]? with
  | none => exact Nat.zero_lt_succ _
  | some t => exact Stack.quantityIn_lt key t.units

theorem quantityAt_of_getElem? {t : Territory} (ht : b.territories[i]? = some t) (key : UnitKey) :
    b.quantityAt i key = Stack.quantityIn key t.units := by
  rw [quantityAt, ht]
  rfl

theorem quantityAt_mark_getD (b : Board) (i : TerritoryId) (key : UnitKey) (f : Marks → Marks)
    (k : UnitKey) : ((b.mark i key f).getD b).quantityAt i k = b.quantityAt i k := by
  rw [mark_getD, quantityAt, quantityAt, getElem?_updateTerritory, Option.map_map]
  congr 2
  funext t
  simp only [Function.comp, if_true, Stack.marked]
  cases hunits : Stack.markIn key f t.units with
  | none => rfl
  | some units => exact Stack.quantityIn_markIn hunits

theorem addUnits_eq_error_iff {t : Territory} (ht : b.territories[i]? = some t) {e : Overflow} :
    b.addUnits i key n = .error e ↔
      e = .add ∧ UInt32.size ≤ b.quantityAt i key + n.toNat := by
  rw [quantityAt_of_getElem? ht, ← Stack.addTo_eq_error_iff, addUnits, ht]
  simp [bind_eq_error_iff, pure, Except.pure]

theorem unplacedOf_updateOwner (b : Board) (player : String) (f : Owner → Owner) :
    (b.updateOwner player f).unplacedOf player =
      (f (b.owners[player]?.getD (.new player))).unplaced := by
  rw [unplacedOf, getElem?_updateOwner, if_pos rfl]
  rfl

theorem waiting_addUnplaced {player unit : String} (h : b.addUnplaced player unit n = .ok b')
    (u : String) : b'.waiting player u = b.waiting player u + if unit = u then n.toNat else 0 := by
  obtain ⟨total, htotal, h⟩ := bind_eq_ok_iff.mp h
  cases h
  have hbefore : (b.owners[player]?.getD (.new player)).unplaced = b.unplacedOf player := by
    rw [unplacedOf]
    cases b.owners[player]? <;> rfl
  rw [waiting, waiting, unplacedOf_updateOwner, hbefore]
  exact Table.toNat_getD_insert htotal u

theorem addUnplaced_eq_error_iff {player unit : String} {e : Overflow} :
    b.addUnplaced player unit n = .error e ↔
      e = .add ∧ UInt32.size ≤ b.waiting player unit + n.toNat := by
  rw [waiting, ← addQuantity_eq_error_iff, addUnplaced]
  simp [bind_eq_error_iff, pure, Except.pure]

end Board

/-- The event asks for more units of a kind, or for more money, than can be counted. -/
def Change.Event.Overflows (b : Board) : Event → Prop
  | .addUnits target units =>
    (∃ i key, b.locate target = some i ∧ UInt32.size ≤ b.quantityAt i key + units.count key) ∨
    ∃ unit, b.locate target = none ∧ b.owners.contains target = true ∧
      UInt32.size ≤ b.waiting target unit + (units.map UnitKey.unit).count unit
  | .resource player quantity => ¬ FitsAmount ((b.balanceOf player).toInt + quantity.toInt)
  | _ => False

namespace Game

variable {g g' : Game} {i : TerritoryId} {key : UnitKey} {e : Overflow} {event : Event}

theorem addUnit_eq_error_iff {t : Territory} (ht : g.world.board.territories[i]? = some t) :
    g.addUnit i key = .error e ↔
      e = .add ∧ UInt32.size ≤ g.world.board.quantityAt i key + 1 := by
  have hone : (1 : UInt32).toNat = 1 := rfl
  rw [addUnit, bind_eq_error_iff, Board.addUnits_eq_error_iff ht, hone]
  constructor
  · rintro (h | ⟨b, -, h⟩)
    · exact h
    · split at h <;> cases h
  · exact Or.inl

theorem addUnit_quantityAt {t : Territory} (ht : g.world.board.territories[i]? = some t)
    (h : g.addUnit i key = .ok g') : (∃ t', g'.world.board.territories[i]? = some t') ∧
      ∀ k, g'.world.board.quantityAt i k =
        g.world.board.quantityAt i k + if key = k then 1 else 0 := by
  obtain ⟨b, hb, h⟩ := bind_eq_ok_iff.mp h
  obtain ⟨u, hu, hturns⟩ := Board.turns_addUnits (fun _ => false) hb ht
  have hcount (k : UnitKey) : b.quantityAt i k =
      g.world.board.quantityAt i k + if key = k then 1 else 0 := by
    rw [Board.quantityAt_of_getElem? hu, Board.quantityAt_of_getElem? ht, hturns.quantity,
      Board.Operation.quantityAfter]
    by_cases hk : key = k <;> simp [hk]
  split at h
  · cases h
    refine ⟨?_, fun k => (Board.quantityAt_mark_getD ..).trans (hcount k)⟩
    simp only [withBoard, Board.mark_getD, Board.getElem?_updateTerritory, hu]
    exact ⟨_, rfl⟩
  · cases h
    exact ⟨⟨u, hu⟩, hcount⟩

theorem addUnits_eq_error_iff {target : String} {units : List UnitKey} :
    g.addUnits target units = .error e ↔
      e = .add ∧ (Event.addUnits target units).Overflows g.world.board := by
  rw [addUnits, Event.Overflows]
  cases hl : g.world.board.locate target with
  | some i =>
      obtain ⟨t, ht, -⟩ := Board.locateIn_eq_some hl
      have hloop := foldlM_count_eq_error_iff (fun g => ∃ t, g.world.board.territories[i]? = some t)
        (fun g key => g.world.board.quantityAt i key) id
        (fun g key => g.world.board.quantityAt_lt i key)
        (fun g key e ht => ht.elim fun t ht => addUnit_eq_error_iff ht)
        (fun g key g' ht h => ht.elim fun t ht => addUnit_quantityAt ht h) ⟨t, ht⟩ units e
      rw [List.map_id] at hloop
      simpa using hloop
  | none =>
      have hloop := foldlM_count_eq_error_iff (fun _ => True)
        (fun b unit => Board.waiting b target unit) UnitKey.unit
        (fun b unit => ((b.unplacedOf target).getD unit 0).toNat_lt_size)
        (fun b key e _ => Board.addUnplaced_eq_error_iff)
        (fun b key b' _ h => ⟨trivial, Board.waiting_addUnplaced (b := b) (n := 1) h⟩)
        (s := g.world.board) trivial units e
      by_cases howner : g.world.board.owners.contains target = true
      · simp only [howner, if_true, bind_eq_error_iff, hloop]
        simp [pure, Except.pure]
      · simp [howner]

/-- No other event can fail. -/
theorem applyEvent_eq_error_iff :
    g.applyEvent event = .error e ↔ e = .add ∧ event.Overflows g.world.board := by
  cases event with
  | role | battles | ownership | removeUnits | property => simp [applyEvent, Event.Overflows]
  | addUnits target units => exact addUnits_eq_error_iff
  | resource player quantity =>
      rw [applyEvent, Event.Overflows, Board.adjustBalance, ← addAmount_eq_error_iff]
      simp [bind_eq_error_iff, pure, Except.pure]

/-- A line fails only where one of its events, after those before it, overflows. Otherwise all its
events are applied. -/
theorem apply_eq_error_iff {line : Text} : g.apply line = .error e ↔
    e = .add ∧ ∃ before event after g', leaves line = before ++ event :: after ∧
      before.foldlM applyEvent g = .ok g' ∧ event.Overflows g'.world.board := by
  rw [apply, foldlM_eq_error_iff]
  simp only [applyEvent_eq_error_iff]
  constructor
  · rintro ⟨before, event, after, g', hleaves, hbefore, rfl, hover⟩
    exact ⟨rfl, before, event, after, g', hleaves, hbefore, hover⟩
  · rintro ⟨rfl, before, event, after, g', hleaves, hbefore, hover⟩
    exact ⟨before, event, after, g', hleaves, hbefore, rfl, hover⟩

def treasury : MapRecord :=
  MapRecord.empty
    |>.addTerritory "Ural" neutral
    |>.addPlayer "Red" 1

/-- One payment too many, and a conquest after it. -/
def windfall : Text :=
  (Change.Tree.node [
    .leaf "Change resource.  Resource:PUs quantity:9223372036854775807 Player:Red".toList,
    .leaf "Red takes Ural from Neutral".toList]).render

/-- The payment ends the run, and the conquest is never made. -/
theorem apply_windfall : ∃ w, World.ofRecord treasury = .ok w ∧
    leaves windfall = [.resource "Red" 9223372036854775807, .ownership "Red" "Ural" "Neutral"] ∧
    (ofWorld w).apply windfall = .error .add := by
  have hleaves : leaves windfall =
      [.resource "Red" 9223372036854775807, .ownership "Red" "Ural" "Neutral"] := by
    decide +kernel
  have hbalance : ((World.ofRecord treasury).map fun w => w.board.balanceOf "Red").toOption =
      some 1 := by
    decide +kernel
  obtain ⟨w, hw, hbalance⟩ := exists_ok_of_map hbalance
  have hover : (Event.resource "Red" 9223372036854775807).Overflows w.board := by
    rw [Event.Overflows, hbalance]
    decide
  have hfails : applyEvent (ofWorld w) (.resource "Red" 9223372036854775807) = .error .add :=
    applyEvent_eq_error_iff.2 ⟨rfl, hover⟩
  refine ⟨w, hw, hleaves, ?_⟩
  rw [apply, hleaves, List.foldlM_cons, hfails]
  rfl

end Game

end Warboard
