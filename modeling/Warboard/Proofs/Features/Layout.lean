import Warboard.Features
import Warboard.Map.Builder
import Warboard.Proofs.Game.Enrolment

namespace Warboard

open Checked

/-- In each territory all units together can be counted. -/
def Board.Countable (b : Board) : Prop :=
  ∀ t ∈ b.territories, (t.units.map fun s => s.quantity.toNat).sum < UInt32.size

instance (b : Board) : Decidable b.Countable := inferInstanceAs (Decidable (∀ t ∈ b.territories, _))

namespace Features

variable {b b' : Board} {w : World} {t : Territory}

/-- The players that the first columns of a row stand for. -/
def columns (b : Board) : List String := b.owners.keys

/-- The row marks the owner of the territory among the columns, and has the other numbers after that. -/
def LaidOut (columns : List String) (t : Territory) (row : List Float32) : Prop :=
  ∃ numbers : List Float32, numbers.length = 7 ∧
    row = (columns.map fun name => flag (name = t.owner)) ++ numbers

theorem LaidOut.length_eq {columns : List String} {row : List Float32} (h : LaidOut columns t row) :
    row.length = width columns.length := by
  obtain ⟨numbers, hnumbers, rfl⟩ := h
  rw [List.length_append, List.length_map, hnumbers, width]

theorem columns_eq_iff : columns b = columns b' ↔ ∀ name, name ∈ b.owners ↔ name ∈ b'.owners := by
  have hmem {c : Board} {name : String} : name ∈ columns c ↔ name ∈ c.owners :=
    Std.ExtTreeMap.mem_keys
  constructor
  · intro h name
    rw [← hmem, h, hmem]
  · intro h
    -- Both lists are in order, so it is enough that they have the same names.
    have hperm : (columns b).Perm (columns b') := by
      rw [columns, columns,
        List.perm_ext_iff_of_nodup Std.ExtTreeMap.nodup_keys Std.ExtTreeMap.nodup_keys]
      simpa only [Std.ExtTreeMap.mem_keys] using h
    refine hperm.eq_of_pairwise ?_ Std.ExtTreeMap.ordered_keys Std.ExtTreeMap.ordered_keys
    intro x y _ _ hxy hyx
    exact absurd hyx (Std.OrientedCmp.not_lt_of_lt hxy)

/-- Each record is kept under the name in it. -/
theorem flags_values {names : List String} (hb : b.Sound names) (owner : String) :
    (b.owners.values.map fun o => flag (o.name = owner)) =
      (columns b).map fun name => flag (name = owner) := by
  rw [Table.values_eq, columns, ← Std.ExtTreeMap.map_fst_toList_eq_keys, List.map_map, List.map_map]
  refine List.map_congr_left fun p hp => ?_
  have hname := hb.owner_name p.1 p.2 (Std.ExtTreeMap.mem_toList_iff_getElem?_eq_some.1 hp)
  rw [Function.comp_apply, hname]
  rfl

theorem sum_eq_error_iff {units : List Stack} {e : Overflow} :
    units.foldlM (fun n s => addQuantity n s.quantity) (0 : UInt32) = .error e ↔
      e = .add ∧ UInt32.size ≤ (units.map fun s => s.quantity.toNat).sum := by
  have hnext (n : UInt32) (s : Stack) (n' : UInt32) (h : addQuantity n s.quantity = .ok n')
      (_ : Unit) : n'.toNat = n.toNat + s.quantity.toNat := addQuantity_eq_ok_iff.1 h
  have hloop := foldlM_weigh_eq_error_iff (fun _ => True) (fun (n : UInt32) (_ : Unit) => n.toNat)
    (fun _ => ()) (fun s : Stack => s.quantity.toNat) (fun n _ => n.toNat_lt_size)
    (fun _ _ _ _ => addQuantity_eq_error_iff) (fun n s n' _ h => ⟨trivial, hnext n s n' h⟩)
    (s := 0) trivial units e
  simpa using hloop

theorem row_eq_error_iff {e : Overflow} : row w t = .error e ↔
    e = .add ∧ UInt32.size ≤ (t.units.map fun s => s.quantity.toNat).sum := by
  rw [row, bind_eq_error_iff, sum_eq_error_iff]
  simp [pure, Except.pure]

theorem row_eq {names : List String} {r : List Float32} (hw : w.board.Sound names)
    (h : row w t = .ok r) : ∃ stats : List Float32, stats.length = 5 ∧
      r = (columns w.board).map (fun name => flag (name = t.owner)) ++
        (stats ++ [flag t.victoryCity, flag t.battle]) := by
  obtain ⟨total, -, h⟩ := bind_eq_ok_iff.mp h
  cases h
  rw [flags_values hw]
  exact ⟨[_, _, _, _, _], rfl, rfl⟩

theorem row_laidOut {names : List String} {r : List Float32} (hw : w.board.Sound names)
    (h : row w t = .ok r) : LaidOut (columns w.board) t r := by
  obtain ⟨stats, hstats, rfl⟩ := row_eq hw h
  exact ⟨_, by rw [List.length_append, hstats]; rfl, rfl⟩

/-- A game has no features only if it has more units in one territory than can be counted. -/
theorem exists_ofWorld_eq_ok_iff {phase : Phase} :
    (∃ f, ofWorld w phase = .ok f) ↔ w.board.Countable := by
  have hrow (t : Territory) : (∃ r, row w t = .ok r) ↔
      (t.units.map fun s => s.quantity.toNat).sum < UInt32.size := by
    rw [← Nat.not_le]
    exact exists_ok_iff_not fun _ => row_eq_error_iff
  simp only [Board.Countable, ← hrow]
  constructor
  · rintro ⟨f, hf⟩ t ht
    obtain ⟨rows, hrows, -⟩ := bind_eq_ok_iff.mp hf
    exact exists_ok_of_mapM hrows ht
  · intro h
    choose! g hg using h
    exact ⟨_, bind_eq_ok_iff.2 ⟨_, mapM_eq_ok hg, rfl⟩⟩

theorem ofWorld_laidOut {names : List String} {phase : Phase} {f : Features}
    (hw : w.board.Sound names) (h : ofWorld w phase = .ok f) :
    List.Forall₂ (LaidOut (columns w.board)) w.board.territories f.territories := by
  obtain ⟨rows, hrows, h⟩ := bind_eq_ok_iff.mp h
  cases h
  exact (mapM_eq_ok_iff.1 hrows).imp fun t r hr => row_laidOut hw hr

/-- Rows of two states of one map are laid out alike if and only if the same players that are not on
the map have come into the game. A column is added for each of them, at its place in the order of
names. -/
theorem ofWorld_layout {r : MapRecord} {lines lines' : List Text} {g g' : Game}
    (hw : World.ofRecord r = .ok w) (h : (Game.ofWorld w).applyAll lines = .ok g)
    (h' : (Game.ofWorld w).applyAll lines' = .ok g') (hg : g.world.board.Countable)
    (hg' : g'.world.board.Countable) (phase phase' : Phase) :
    ∃ f f', ofWorld g.world phase = .ok f ∧ ofWorld g'.world phase' = .ok f' ∧
      List.Forall₂ (LaidOut (columns g.world.board)) g.world.board.territories f.territories ∧
      List.Forall₂ (LaidOut (columns g'.world.board)) g'.world.board.territories f'.territories ∧
      (columns g.world.board = columns g'.world.board ↔ ∀ name, ¬ r.Enrols name →
        (r.Brings lines name ↔ r.Brings lines' name)) := by
  obtain ⟨f, hf⟩ : ∃ f, ofWorld g.world phase = .ok f := exists_ofWorld_eq_ok_iff.2 hg
  obtain ⟨f', hf'⟩ : ∃ f', ofWorld g'.world phase' = .ok f' := exists_ofWorld_eq_ok_iff.2 hg'
  refine ⟨f, f', hf, hf', ?_, ?_, ?_⟩
  · exact ofWorld_laidOut (Game.applyAll_sound hw h) hf
  · exact ofWorld_laidOut (Game.applyAll_sound hw h') hf'
  · rw [columns_eq_iff]
    refine forall_congr' fun name => ?_
    rw [Game.mem_owners_applyAll hw h, Game.mem_owners_applyAll hw h']
    by_cases hname : r.Enrols name <;> simp [hname]

/-- One territory, and a player who holds it. -/
def outpost : MapRecord :=
  MapRecord.empty
    |>.addTerritory "Ural" "Red"
    |>.addPlayer "Red" 1

def paid : Text := "Change resource.  Resource:PUs quantity:7 Player:Blue".toList

def conquered : Text := "Blue takes Ural from Red".toList

def abandoned : Text := "Neutral takes Ural from Red".toList

/-- Blue is not on the map, and comes into the game by a payment or by a conquest. -/
theorem ofWorld_layout_blue : ∃ w g g', World.ofRecord outpost = .ok w ∧
    (Game.ofWorld w).applyAll [paid] = .ok g ∧ (Game.ofWorld w).applyAll [conquered] = .ok g' ∧
    g.world.board.Countable ∧ g'.world.board.Countable ∧
    columns g.world.board = ["Blue", "Red"] ∧ columns g'.world.board = ["Blue", "Red"] ∧
    ∃ f f', ofWorld g.world .purchase = .ok f ∧ ofWorld g'.world .combat = .ok f' ∧
      List.Forall₂ (LaidOut (columns g.world.board)) g.world.board.territories f.territories ∧
      List.Forall₂ (LaidOut (columns g'.world.board)) g'.world.board.territories f'.territories := by
  have hboards : (do
      let w ← World.ofRecord outpost
      let g ← (Game.ofWorld w).applyAll [paid]
      let g' ← (Game.ofWorld w).applyAll [conquered]
      return (decide g.world.board.Countable, decide g'.world.board.Countable,
        columns g.world.board, columns g'.world.board)) =
      (.ok (true, true, ["Blue", "Red"], ["Blue", "Red"]) : Checked _) := by
    decide +kernel
  obtain ⟨w, hw, hboards⟩ := bind_eq_ok_iff.mp hboards
  obtain ⟨g, hg, hboards⟩ := bind_eq_ok_iff.mp hboards
  obtain ⟨g', hg', hboards⟩ := bind_eq_ok_iff.mp hboards
  simp only [pure, Except.pure, Except.ok.injEq, Prod.mk.injEq, decide_eq_true_eq] at hboards
  obtain ⟨hcount, hcount', hcolumns, hcolumns'⟩ := hboards
  obtain ⟨f, f', hf, hf', hrows, hrows', -⟩ :=
    ofWorld_layout hw hg hg' hcount hcount' .purchase .combat
  exact ⟨w, g, g', hw, hg, hg', hcount, hcount', hcolumns, hcolumns', f, f', hf, hf', hrows, hrows'⟩

/-- A territory that nobody holds any more gives the row a column more, and Red's is not the first. -/
theorem ofWorld_abandoned : ∃ w g g' f f', World.ofRecord outpost = .ok w ∧
    (Game.ofWorld w).applyAll [] = .ok g ∧ (Game.ofWorld w).applyAll [abandoned] = .ok g' ∧
    ofWorld g.world .purchase = .ok f ∧ ofWorld g'.world .purchase = .ok f' ∧
    f.territories.map List.length = [8] ∧ f'.territories.map List.length = [9] ∧
    columns g.world.board = ["Red"] ∧ columns g'.world.board = ["Neutral", "Red"] := by
  have hshapes : (do
      let w ← World.ofRecord outpost
      let g ← (Game.ofWorld w).applyAll []
      let g' ← (Game.ofWorld w).applyAll [abandoned]
      let f ← ofWorld g.world .purchase
      let f' ← ofWorld g'.world .purchase
      return (f.territories.map List.length, f'.territories.map List.length,
        columns g.world.board, columns g'.world.board)) =
      (.ok ([8], [9], ["Red"], ["Neutral", "Red"]) : Checked _) := by
    decide +kernel
  obtain ⟨w, hw, hshapes⟩ := bind_eq_ok_iff.mp hshapes
  obtain ⟨g, hg, hshapes⟩ := bind_eq_ok_iff.mp hshapes
  obtain ⟨g', hg', hshapes⟩ := bind_eq_ok_iff.mp hshapes
  obtain ⟨f, hf, hshapes⟩ := bind_eq_ok_iff.mp hshapes
  obtain ⟨f', hf', hshapes⟩ := bind_eq_ok_iff.mp hshapes
  simp only [pure, Except.pure, Except.ok.injEq, Prod.mk.injEq] at hshapes
  exact ⟨w, g, g', f, f', hw, hg, hg', hf, hf', hshapes⟩

end Features

end Warboard
