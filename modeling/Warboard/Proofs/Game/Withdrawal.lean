import Warboard.Proofs.Board.Invariant
import Warboard.Proofs.Board.Withdrawal
import Warboard.Proofs.Change.Reading
import Warboard.Proofs.Game.Capacity
import Warboard.Proofs.Game.Confinement
import Warboard.Proofs.Game.Ground

namespace Warboard

open Checked

/-- A loop that counts one more for each item has counted them all. -/
theorem Checked.count_foldlM {σ α κ : Type} [DecidableEq κ] {step : σ → α → Checked σ}
    (P : σ → Prop) (count : σ → κ → Nat) (kind : α → κ)
    (hnext : ∀ s a s', P s → step s a = .ok s' →
      P s' ∧ ∀ k, count s' k = count s k + if kind a = k then 1 else 0)
    {xs : List α} {s s' : σ} (hs : P s) (h : xs.foldlM step s = .ok s') (k : κ) :
    count s' k = count s k + (xs.map kind).count k := by
  induction xs generalizing s with
  | nil => cases h; rfl
  | cons a xs ih =>
      rw [List.foldlM_cons, bind_eq_ok_iff] at h
      obtain ⟨u, hu, h⟩ := h
      obtain ⟨hPu, hcount⟩ := hnext s a u hs hu
      rw [ih hPu h, hcount, List.map_cons, List.count_cons, Nat.add_assoc, Nat.add_comm (ite ..)]
      simp only [beq_iff_eq]

def Change.Name.ofWord (w : String) (h : (w.toList ≠ [] ∧ w.toList.all Text.isWord = true) ∧
    ¬ "CompositeChange".toList <:+: w.toList) : Name :=
  ⟨.ofString w h.1, h.2⟩

theorem Change.read_report (r : Report)
    (hvalues : ∀ v ∈ r.values, ¬ "CompositeChange".toList <:+: v.text) :
    read r.render = .ok (.single r.event) := by
  have hblank : ∀ c ∈ ([] : Text), Text.isBlank c = true := List.forall_mem_nil _
  have hread := read_render r hvalues hblank hblank
  rwa [List.nil_append, List.append_nil] at hread

namespace Game

open Change

variable {g g' : Game} {target : String} {i : TerritoryId} {units units' : List UnitKey}

/-- The units are there in addition to those that were: in the territory, or in the pool of the
player. -/
structure Receives (b b' : Board) (target : String) (units : List UnitKey) : Prop where
  there : ∀ i, b.locate target = some i →
    ∀ key, b'.quantityAt i key = b.quantityAt i key + units.count key
  pooled : b.locate target = none → target ∈ b.owners →
    ∀ unit, b'.waiting target unit = b.waiting target unit + (units.map UnitKey.unit).count unit

theorem addUnits_receives (h : g.addUnits target units = .ok g') :
    Receives g.world.board g'.world.board target units where
  there i hl key := by
    simp only [addUnits, hl] at h
    obtain ⟨t, ht, -⟩ := Board.locateIn_eq_some hl
    have hcount := count_foldlM (fun g => ∃ t, g.world.board.territories[i]? = some t)
      (fun g key => g.world.board.quantityAt i key) id
      (fun g key g' ht h => ht.elim fun t ht => addUnit_quantityAt ht h) ⟨t, ht⟩ h key
    rwa [List.map_id] at hcount
  pooled hl howner unit := by
    rw [← Std.ExtTreeMap.contains_iff_mem] at howner
    simp only [addUnits, hl, howner, if_true] at h
    obtain ⟨b, hb, h⟩ := bind_eq_ok_iff.mp h
    cases h
    exact count_foldlM (fun _ => True) (fun b unit => Board.waiting b target unit) UnitKey.unit
      (fun b key b' _ h => ⟨trivial, Board.waiting_addUnplaced (b := b) (n := 1) h⟩) trivial hb unit

/-- Where no properties wait for the units, their coming changes the board only. -/
theorem foldlM_addUnit_of_plain {b : Board} (hplain : ∀ key ∈ units, g.pending[key]? = none) :
    units.foldlM (fun g key => g.addUnit i key) (g.withBoard b) =
      (units.foldlM (fun (b : Board) key => b.addUnits i key 1) b).map g.withBoard := by
  induction units generalizing b with
  | nil => rfl
  | cons key units ih =>
      obtain ⟨hkey, hplain⟩ := List.forall_mem_cons.1 hplain
      have hwaiting : (g.withBoard b).pending[key]? = none := hkey
      have hunit : (g.withBoard b).addUnit i key = (b.addUnits i key 1).map g.withBoard := by
        simp only [addUnit, hwaiting]
        change b.addUnits i key 1 >>= _ = _
        cases b.addUnits i key 1 <;> rfl
      rw [List.foldlM_cons, List.foldlM_cons, hunit]
      cases b.addUnits i key 1 with
      | error e => rfl
      | ok b' => exact ih hplain

/-- Units that came without properties go again in any order, and nothing is left of them. -/
theorem removeUnits_addUnits (hg : g.world.board.Positive) (hperm : units'.Perm units)
    (hplain : ∀ i, g.world.board.locate target = some i → ∀ key ∈ units, g.pending[key]? = none)
    (h : g.addUnits target units = .ok g') : g'.removeUnits target units' = g := by
  have hground : g.world.board.SameGround g'.world.board :=
    (addUnits_performs h).sameGround fun _ => isLink_of_mem_operations
  rw [removeUnits, hground.locate_eq]
  cases hl : g.world.board.locate target with
  | some i =>
      simp only [addUnits, hl] at h
      have hboard := foldlM_addUnit_of_plain (i := i) (b := g.world.board) (hplain i hl)
      cases hb : units.foldlM (fun (b : Board) key => b.addUnits i key 1) g.world.board with
      | error e =>
          rw [hb] at hboard
          cases h.symm.trans hboard
      | ok b =>
          rw [hb] at hboard
          cases h.symm.trans hboard
          have hback := foldl_undo Board.Positive
            (fun b key => (b.removeUnits i key 1).getD b)
            (fun b key k => Board.removeUnits_comm b i key k 1)
            (fun b key b' hb h => ⟨hb.addUnits (by decide) h, Board.removeUnits_addUnits hb h⟩)
            hperm hg hb
          exact congrArg g.withBoard hback
  | none =>
      by_cases howner : g.world.board.owners.contains target = true
      · simp only [addUnits, hl, howner, if_true] at h
        obtain ⟨b, hb, h⟩ := bind_eq_ok_iff.mp h
        cases h
        have hnext (b : Board) (key : UnitKey) (b' : Board) (hb : b.Positive ∧ target ∈ b.owners)
            (h : b.addUnplaced target key.unit 1 = .ok b') :
            (b'.Positive ∧ target ∈ b'.owners) ∧ b'.removeUnplaced target key.unit 1 = b :=
          ⟨⟨hb.1.addUnplaced (by decide) h, Board.mem_owners_addUnplaced h⟩,
            Board.removeUnplaced_addUnplaced hb.1 hb.2 h⟩
        have hstart : g.world.board.Positive ∧ target ∈ g.world.board.owners :=
          ⟨hg, Std.ExtTreeMap.contains_iff_mem.1 howner⟩
        have hkept : target ∈ b.owners :=
          (foldlM_keeps (fun b key b' hb h => (hnext b key b' hb h).1) hstart hb).2
        have hback := foldl_undo (fun b => b.Positive ∧ target ∈ b.owners)
          (fun b key => b.removeUnplaced target key.unit 1)
          (fun b key k => b.removeUnplaced_comm target key.unit k.unit 1) hnext hperm hstart hb
        have howner' : (g.withBoard b).world.board.owners.contains target = true :=
          Std.ExtTreeMap.contains_iff_mem.2 hkept
        rw [if_pos howner']
        exact congrArg g.withBoard hback
      · rw [addUnits, hl] at h
        simp only [howner] at h
        cases h
        simp [howner]

theorem apply_addUnits_line (g : Game) (target : Name) {units : List Change.Holding}
    (hne : units ≠ []) :
    g.apply (Line.transfer "Add unit change.  Add to: " target units) =
      g.addUnits target.string (units.map (·.key)) :=
  apply_of_read (read_report (.addUnits target units hne) (List.forall_mem_nil _))

theorem apply_removeUnits_line (g : Game) (target : Name) {units : List Change.Holding}
    (hne : units ≠ []) :
    g.apply (Line.transfer "Remove unit change.  Remove from: " target units) =
      .ok (g.removeUnits target.string (units.map (·.key))) :=
  apply_of_read (read_report (.removeUnits target units hne) (List.forall_mem_nil _))

/-- Units that come by one line and go by the next, in any order, leave the game as it was: every
stack in its place with its quantity and marks, every pool, and all that waits. In between they are
where they were sent. Only a stack or an entry of no units, and properties that wait for units of a
territory, could keep a trace of them. -/
theorem apply_removeUnits_addUnits {g : Game} (hg : g.world.board.Positive) (target : Name)
    {units units' : List Change.Holding} (hne : units ≠ []) (hperm : units'.Perm units)
    (hplain : ∀ i, g.world.board.locate target.string = some i →
      ∀ u ∈ units, g.pending[u.key]? = none)
    (hroom : ¬ (Event.addUnits target.string (units.map (·.key))).Overflows g.world.board) :
    ∃ g', g.apply (Line.transfer "Add unit change.  Add to: " target units) = .ok g' ∧
      Receives g.world.board g'.world.board target.string (units.map (·.key)) ∧
      g'.apply (Line.transfer "Remove unit change.  Remove from: " target units') = .ok g := by
  obtain ⟨g', hadd⟩ := (exists_ok_iff_not fun e => g.addUnits_eq_error_iff).2 hroom
  have hne' : units' ≠ [] := fun h => hne (List.nil_perm.1 (h ▸ hperm))
  refine ⟨g', (g.apply_addUnits_line target hne).trans hadd, addUnits_receives hadd, ?_⟩
  rw [g'.apply_removeUnits_line target hne']
  refine congrArg Except.ok (removeUnits_addUnits hg (hperm.map (·.key)) ?_ hadd)
  exact fun i hi => List.forall_mem_map.2 (hplain i hi)

def strait : Name := .ofWord "Sound" (by decide)

def red : Name := .ofWord "Red" (by decide)

/-- There is infantry in the strait already, and no armour. -/
def levy : List Change.Holding :=
  let infantry : Name := .ofWord "infantry" (by decide)
  let armour : Name := .ofWord "armour" (by decide)
  [⟨infantry, red⟩, ⟨armour, red⟩, ⟨armour, red⟩, ⟨infantry, red⟩, ⟨armour, red⟩]

/-- The one that came last goes first, from the territory and from the pool. -/
theorem apply_removeUnits_addUnits_levy : ∃ w, World.ofRecord World.twins = .ok w ∧
    ∀ target ∈ [strait, red], ∃ g',
      (ofWorld w).apply (Line.transfer "Add unit change.  Add to: " target levy) = .ok g' ∧
      Receives w.board g'.world.board target.string (levy.map (·.key)) ∧
      g'.apply (Line.transfer "Remove unit change.  Remove from: " target levy.reverse) =
        .ok (ofWorld w) := by
  have hok : ((World.ofRecord World.twins >>= fun w =>
      [strait, red].mapM fun target =>
        (ofWorld w).addUnits target.string (levy.map (·.key))).map fun _ => ()).toOption =
          some () := by
    decide +kernel
  obtain ⟨games, hok, -⟩ := exists_ok_of_map hok
  obtain ⟨w, hw, hok⟩ := bind_eq_ok_iff.mp hok
  refine ⟨w, hw, fun target htarget => ?_⟩
  have hpositive : w.board.Positive :=
    (World.ofRecord_both (fun _ => Board.ofRecord_positive (by decide)) hw).1
  have hroom := (exists_ok_iff_not fun e => addUnits_eq_error_iff).1
    (exists_ok_of_mapM hok htarget)
  have hplain (key : UnitKey) : (ofWorld w).pending[key]? = none :=
    Std.ExtTreeMap.getElem?_empty
  exact apply_removeUnits_addUnits hpositive target (by decide) levy.reverse_perm
    (fun _ _ u _ => hplain u.key) hroom

end Game

end Warboard
