import Warboard.Proofs.Board.Tenure
import Warboard.Proofs.Board.VictoryCity
import Warboard.Proofs.Features.Layout

namespace Warboard

open Checked

namespace Features

variable {b : Board} {w : World} {t : Territory} {names : List String} {phase : Phase}

def entry (rows : List (List Float32)) (i j : Nat) : Option Float32 := rows[i]?.bind (·[j]?)

theorem flag_eq_one_iff {p : Bool} : flag p = 1 ↔ p = true := by
  cases p <;> decide

/-- Each row is about the territory in its place. After the columns of the owners the last but one
of the other numbers marks the victory cities and the last one the battles. -/
structure Describes (b : Board) (cities : List String) (rows : List (List Float32)) : Prop where
  length_eq : rows.length = b.territories.length
  width_eq : ∀ row ∈ rows, row.length = width b.owners.size
  owner : ∀ i t k name, b.territories[i]? = some t → (columns b)[k]? = some name →
    entry rows i k = some (flag (name = t.owner))
  city : ∀ i < b.territories.length, entry rows i (b.owners.size + 5) =
    some (flag ((cities.filterMap b.locate).contains i))
  battle : ∀ i t, b.territories[i]? = some t →
    entry rows i (b.owners.size + 6) = some (flag t.battle)

theorem length_columns (b : Board) : (columns b).length = b.owners.size :=
  Std.ExtTreeMap.length_keys

theorem exists_entry_eq {f : Features} {i : TerritoryId} (hb : w.board.Sound names)
    (h : ofWorld w phase = .ok f) (ht : w.board.territories[i]? = some t) :
    ∃ stats : List Float32, stats.length = 5 ∧ ∀ k, entry f.territories i k =
      ((columns w.board).map (fun name => flag (name = t.owner)) ++
        (stats ++ [flag t.victoryCity, flag t.battle]))[k]? := by
  obtain ⟨rows, hrows, h⟩ := bind_eq_ok_iff.mp h
  cases h
  obtain ⟨r, hr, hrow⟩ := getElem?_of_mapM hrows ht
  obtain ⟨stats, hstats, rfl⟩ := row_eq hb hrow
  exact ⟨stats, hstats, fun k => by rw [entry, hr, Option.bind_some]⟩

theorem territories_describes {f : Features} {cities : List String} (hb : w.board.Sound names)
    (hcities : w.board.Crowned cities) (h : ofWorld w phase = .ok f) :
    Describes w.board cities f.territories where
  length_eq := (ofWorld_laidOut hb h).length_eq.symm
  width_eq r hr := by
    obtain ⟨i, hi, rfl⟩ := List.mem_iff_getElem.1 hr
    have hrows := ofWorld_laidOut hb h
    have hi' : i < w.board.territories.length := hrows.length_eq ▸ hi
    exact (hrows.get hi' hi).length_eq.trans (congrArg width (length_columns w.board))
  owner i t k name ht hk := by
    obtain ⟨stats, -, hentry⟩ := exists_entry_eq hb h ht
    have hlt : k < (columns w.board).length := (List.getElem?_eq_some_iff.1 hk).1
    rw [hentry, List.getElem?_append_left (by simpa using hlt), List.getElem?_map, hk,
      Option.map_some]
  city i hi := by
    have ht := List.getElem?_eq_getElem hi
    obtain ⟨stats, hstats, hentry⟩ := exists_entry_eq hb h ht
    rw [hentry, ← hcities i _ ht]
    simp [hstats, ← length_columns]
  battle i t ht := by
    obtain ⟨stats, hstats, hentry⟩ := exists_entry_eq hb h ht
    rw [hentry]
    simp [hstats, ← length_columns]

namespace Describes

variable {cities : List String} {rows : List (List Float32)} {i k l : Nat}

theorem entry_eq_one_iff (h : Describes b cities rows) (hk : k < b.owners.size) :
    entry rows i k = some 1 ↔
      ∃ t, b.territories[i]? = some t ∧ (columns b)[k]? = some t.owner := by
  have hname := List.getElem?_eq_getElem (l := columns b) (by rwa [length_columns])
  cases ht : b.territories[i]? with
  | none =>
      have hrow : rows[i]? = none := by
        rw [List.getElem?_eq_none_iff] at ht ⊢
        rwa [h.length_eq]
      simp [entry, hrow]
  | some t =>
      rw [h.owner i t k _ ht hname, Option.some.injEq, flag_eq_one_iff, decide_eq_true_iff, hname]
      simp

theorem unique (h : Describes b cities rows) (hk : k < b.owners.size) (hl : l < b.owners.size)
    (hik : entry rows i k = some 1) (hil : entry rows i l = some 1) : k = l := by
  obtain ⟨t, ht, howner⟩ := (h.entry_eq_one_iff hk).1 hik
  obtain ⟨t', ht', howner'⟩ := (h.entry_eq_one_iff hl).1 hil
  obtain rfl : t = t' := Option.some.inj (ht.symm.trans ht')
  have hlt : k < (columns b).length := by rwa [length_columns]
  exact (List.getElem?_inj hlt Std.ExtTreeMap.nodup_keys).1 (howner.trans howner'.symm)

theorem existsUnique (h : Describes b cities rows) (hheld : b.Held i) :
    ∃! k, k < b.owners.size ∧ entry rows i k = some 1 := by
  obtain ⟨t, ht, howner⟩ := hheld
  obtain ⟨k, hk⟩ := List.mem_iff_getElem?.1 (Std.ExtTreeMap.mem_keys.2 howner)
  have hlt : k < b.owners.size := length_columns b ▸ (List.getElem?_eq_some_iff.1 hk).1
  have hone : entry rows i k = some 1 := (h.entry_eq_one_iff hlt).2 ⟨t, ht, hk⟩
  exact ⟨k, ⟨hlt, hone⟩, fun l hl => h.unique hl.1 hlt hl.2 hone⟩

end Describes

/-- The table has a one where there is a connection, and is zero otherwise. -/
structure Connects (b : Board) (rows : List (List Float32)) : Prop where
  length_eq : rows.length = b.territories.length
  width_eq : ∀ row ∈ rows, row.length = b.territories.length
  binary : ∀ row ∈ rows, ∀ x ∈ row, x = 0 ∨ x = 1
  entry_eq_one_iff : ∀ i j, entry rows i j = some 1 ↔ j ∈ b.neighborsOf i
  symm : ∀ i j, entry rows i j = entry rows j i
  diagonal : ∀ i < b.territories.length, entry rows i i = some 0

def adjacencyOf (ts : List Territory) : List (List Float32) :=
  ts.map fun t => (List.range ts.length).map fun i => flag (t.neighbors.contains i)

theorem contains_neighbors {i : TerritoryId} (ht : b.territories[i]? = some t) (j : TerritoryId) :
    t.neighbors.contains j = decide (j ∈ b.neighborsOf i) := by
  rw [Bool.eq_iff_iff, Std.ExtTreeSet.contains_iff_mem, decide_eq_true_iff, Board.mem_neighborsOf]
  simp [ht]

theorem entry_adjacencyOf (b : Board) (i j : Nat) : entry (adjacencyOf b.territories) i j =
    if i < b.territories.length ∧ j < b.territories.length then
      some (flag (j ∈ b.neighborsOf i)) else none := by
  rw [entry, adjacencyOf, List.getElem?_map]
  by_cases hi : i < b.territories.length
  · have ht := List.getElem?_eq_getElem hi
    rw [ht, Option.map_some, Option.bind_some, List.getElem?_map]
    by_cases hj : j < b.territories.length
    · rw [List.getElem?_range hj, Option.map_some, if_pos ⟨hi, hj⟩, contains_neighbors ht]
    · rw [List.getElem?_eq_none (by simpa using hj), if_neg fun h => hj h.2]
      rfl
  · rw [List.getElem?_eq_none (Nat.not_lt.1 hi), if_neg fun h => hi h.1]
    rfl

theorem adjacencyOf_connects (hb : b.Sound names) : Connects b (adjacencyOf b.territories) where
  length_eq := List.length_map _
  width_eq := List.forall_mem_map.2 fun t _ => by rw [List.length_map, List.length_range]
  binary := List.forall_mem_map.2 fun t _ => List.forall_mem_map.2 fun i _ => by
    cases t.neighbors.contains i <;> simp [flag]
  entry_eq_one_iff i j := by
    rw [entry_adjacencyOf, Option.ite_none_right_eq_some, Option.some.injEq, flag_eq_one_iff,
      decide_eq_true_iff]
    exact and_iff_right_of_imp fun h => ⟨Board.lt_length_of_mem_neighborsOf h, hb.lt_length h⟩
  symm i j := by
    have hmem : j ∈ b.neighborsOf i ↔ i ∈ b.neighborsOf j :=
      ⟨hb.neighbors_symm i j, hb.neighbors_symm j i⟩
    simp only [entry_adjacencyOf, hmem, and_comm]
  diagonal i hi := by
    rw [entry_adjacencyOf, if_pos ⟨hi, hi⟩, decide_eq_false (hb.neighbors_irrefl i)]
    rfl

theorem adjacency_eq {f : Features} (h : ofWorld w phase = .ok f) :
    f.adjacency = adjacencyOf w.board.territories := by
  obtain ⟨rows, -, h⟩ := bind_eq_ok_iff.mp h
  cases h
  rfl

/-- Whatever has happened in a game, its numbers show the board as it is. -/
theorem ofWorld_mirrors {r : MapRecord} {ops : List World.Operation}
    (h : World.after r ops = .ok w) (hcount : w.board.Countable) (phase : Phase) :
    ∃ f, ofWorld w phase = .ok f ∧
      w.board.territories.map Territory.name = r.territories ∧
      (columns w.board).Pairwise (fun name name' => compare name name' = .lt) ∧
      (∀ name, name ∈ columns w.board ↔ name ∈ w.board.owners) ∧
      Describes w.board r.victoryCities f.territories ∧
      (∀ i k l, k < w.board.owners.size → l < w.board.owners.size →
        entry f.territories i k = some 1 → entry f.territories i l = some 1 → k = l) ∧
      (∀ territory i, World.Taken ops territory → w.board.locate territory = some i →
        ∃! k, k < w.board.owners.size ∧ entry f.territories i k = some 1) ∧
      Connects w.board f.adjacency := by
  have hsound := World.after_sound h
  obtain ⟨f, hf⟩ : ∃ f, ofWorld w phase = .ok f := exists_ofWorld_eq_ok_iff.2 hcount
  have hrows := territories_describes hsound (World.after_crowned h) hf
  refine ⟨f, hf, hsound.names_eq, Std.ExtTreeMap.ordered_keys, fun _ => Std.ExtTreeMap.mem_keys,
    hrows, fun i k l => hrows.unique, ?_, adjacency_eq hf ▸ adjacencyOf_connects hsound⟩
  exact fun territory i htaken hi => hrows.existsUnique (World.held_of_taken h htaken hi)

/-- Blue comes in by taking the last of the territories of one name. -/
theorem ofWorld_mirrors_landing : ∃ w f, World.after World.twins World.landing = .ok w ∧
    w.board.Countable ∧ w.board.locate "Sound" = some 2 ∧
    columns w.board = ["Blue", "Green", "Red"] ∧ ofWorld w .combat = .ok f ∧
    Describes w.board World.twins.victoryCities f.territories ∧
    (∃! k, k < w.board.owners.size ∧ entry f.territories 2 k = some 1) ∧
    Connects w.board f.adjacency := by
  have hboard : ((World.after World.twins World.landing).map fun w =>
      (decide w.board.Countable, w.board.locate "Sound", columns w.board)).toOption =
      some (true, some 2, ["Blue", "Green", "Red"]) := by
    decide +kernel
  obtain ⟨w, hw, hboard⟩ := exists_ok_of_map hboard
  simp only [Prod.mk.injEq, decide_eq_true_eq] at hboard
  obtain ⟨hcount, hlocate, hcolumns⟩ := hboard
  obtain ⟨f, hf, -, -, -, hrows, -, htaken, hconnects⟩ := ofWorld_mirrors hw hcount .combat
  refine ⟨w, f, hw, hcount, hlocate, hcolumns, hf, hrows, htaken "Sound" 2 ?_ hlocate, hconnects⟩
  exact ⟨[], "Blue", _, rfl, by simp⟩

end Features

end Warboard
