import Mathlib.Logic.Basic
import Warboard.Board.Update
import Warboard.Proofs.Checked

namespace Warboard

open Checked

namespace Board

variable {b : Board} {i j k l : TerritoryId}

theorem locateIn_eq_some {name : String} {ts : List Territory} (h : locateIn name ts = some i) :
    ∃ t, ts[i]? = some t ∧ t.name = name := by
  induction ts generalizing i with
  | nil => cases h
  | cons t ts ih =>
      rw [locateIn] at h
      cases hl : locateIn name ts with
      | some l =>
          rw [hl] at h
          cases h
          exact ih hl
      | none =>
          rw [hl] at h
          by_cases ht : t.name = name
          · rw [if_pos ht] at h
            cases h
            exact ⟨t, rfl, ht⟩
          · rw [if_neg ht] at h
            cases h

theorem isSome_locateIn_iff {name : String} {ts : List Territory} :
    (locateIn name ts).isSome ↔ name ∈ ts.map Territory.name := by
  induction ts with
  | nil => simp [locateIn]
  | cons t ts ih =>
      rw [locateIn, List.map_cons, List.mem_cons, ← ih]
      cases locateIn name ts <;> by_cases ht : t.name = name <;> simp [ht, Ne.symm]

/-- Only the names of the territories tell where a name leads. -/
theorem locateIn_congr {name : String} {ts us : List Territory}
    (h : ts.map Territory.name = us.map Territory.name) : locateIn name ts = locateIn name us := by
  induction ts generalizing us with
  | nil => rw [List.map_eq_nil_iff.1 h.symm]
  | cons t ts ih =>
      obtain ⟨u, us, rfl, hu, hus⟩ := List.map_eq_cons_iff.1 h.symm
      rw [locateIn, locateIn, ih hus.symm, hu]

theorem lt_length_of_locate {name : String} (h : b.locate name = some i) :
    i < b.territories.length := by
  obtain ⟨t, ht, -⟩ := locateIn_eq_some h
  exact (List.getElem?_eq_some_iff.1 ht).1

theorem ends_eq_some_iff {origin target : String} : b.ends origin target = some (i, j) ↔
    b.locate origin = some i ∧ b.locate target = some j := by
  rw [ends]
  cases b.locate origin <;> cases b.locate target <;> simp

theorem getElem?_updateTerritory (b : Board) (f : Territory → Territory) (i l : TerritoryId) :
    (b.updateTerritory i f).territories[l]? =
      b.territories[l]?.map fun t => if i = l then f t else t :=
  List.getElem?_modify f i b.territories l

theorem mem_updateTerritory {f : Territory → Territory} {t : Territory}
    (h : t ∈ (b.updateTerritory i f).territories) :
    t ∈ b.territories ∨ ∃ u, b.territories[i]? = some u ∧ t = f u := by
  obtain ⟨l, hl⟩ := List.mem_iff_getElem?.1 h
  rw [getElem?_updateTerritory, Option.map_eq_some_iff] at hl
  obtain ⟨u, hu, rfl⟩ := hl
  split
  · rename_i hil
    exact Or.inr ⟨u, hil ▸ hu, rfl⟩
  · exact Or.inl (List.mem_of_getElem? hu)

/-- What the change leaves alone in a territory it leaves alone on the board. -/
theorem map_updateTerritory {α : Type} {part : Territory → α} {f : Territory → Territory}
    (hpart : ∀ t, part (f t) = part t) :
    (b.updateTerritory i f).territories.map part = b.territories.map part := by
  apply List.ext_getElem?
  intro l
  rw [List.getElem?_map, List.getElem?_map, getElem?_updateTerritory, Option.map_map]
  congr 1
  funext t
  by_cases hil : i = l <;> simp [hil, hpart]

theorem names_updateTerritory {f : Territory → Territory} (hname : ∀ t, (f t).name = t.name) :
    (b.updateTerritory i f).territories.map Territory.name = b.territories.map Territory.name :=
  map_updateTerritory hname

theorem locate_updateTerritory {f : Territory → Territory} (hname : ∀ t, (f t).name = t.name)
    (name : String) : (b.updateTerritory i f).locate name = b.locate name :=
  locateIn_congr (names_updateTerritory hname)

theorem getElem?_updateOwner (b : Board) (f : Owner → Owner) (player name : String) :
    (b.updateOwner player f).owners[name]? =
      if player = name then some (f (b.owners[player]?.getD (.new player)))
      else b.owners[name]? := by
  simp only [updateOwner, Std.ExtTreeMap.getElem?_alter, Std.LawfulEqCmp.compare_eq_iff_eq]

/-- A record is the changed one of the player, which may be new, or was there before. -/
theorem mem_updateOwner {f : Owner → Owner} {player name : String} {o : Owner}
    (h : (b.updateOwner player f).owners[name]? = some o) :
    b.owners[name]? = some o ∨
      ∃ u, (b.owners[name]? = some u ∨ u = .new name) ∧ o = f u := by
  rw [getElem?_updateOwner] at h
  by_cases hplayer : player = name
  · rw [if_pos hplayer, hplayer, Option.some.injEq] at h
    subst h
    right
    cases b.owners[name]? with
    | none => exact ⟨_, Or.inr rfl, rfl⟩
    | some u => exact ⟨u, Or.inl rfl, rfl⟩
  · rw [if_neg hplayer] at h
    exact Or.inl h

theorem mem_clearUnplaced {player name : String} {o : Owner}
    (h : (b.clearUnplaced player).owners[name]? = some o) :
    b.owners[name]? = some o ∨ ∃ u, b.owners[name]? = some u ∧ o = { u with unplaced := ∅ } := by
  rw [clearUnplaced, Std.ExtTreeMap.getElem?_modify] at h
  split at h
  · rename_i hplayer
    rw [Std.LawfulEqCmp.compare_eq_iff_eq] at hplayer
    subst hplayer
    obtain ⟨u, hu, rfl⟩ := Option.map_eq_some_iff.1 h
    exact Or.inr ⟨u, hu, rfl⟩
  · exact Or.inl h

section Primitives

variable {key : UnitKey} {n : UInt32} {f : Marks → Marks} {origin target : String} {b' : Board}

theorem addUnits_eq_ok_iff : b.addUnits i key n = .ok b' ↔
    (∃ t units, b.territories[i]? = some t ∧ Stack.addTo key n t.units = .ok units ∧
      b.updateTerritory i (fun t => { t with units := units }) = b') ∨
    b.territories[i]? = none ∧ b = b' := by
  rw [addUnits]
  cases b.territories[i]? with
  | none => simp
  | some t => simp [bind_eq_ok_iff, pure, Except.pure]

theorem removeUnits_eq_some_iff : b.removeUnits i key n = some b' ↔
    ∃ t units, b.territories[i]? = some t ∧ Stack.removeFrom key n t.units = some units ∧
      b.updateTerritory i (fun t => { t with units := units }) = b' := by
  simp [removeUnits, Option.bind_eq_some_iff]

theorem mark_eq_some_iff : b.mark i key f = some b' ↔
    ∃ t units, b.territories[i]? = some t ∧ Stack.markIn key f t.units = some units ∧
      b.updateTerritory i (fun t => { t with units := units }) = b' := by
  simp [mark, Option.bind_eq_some_iff]

theorem connect_eq_some_iff : b.connect origin target = some b' ↔
    ∃ i j, b.ends origin target = some (i, j) ∧ i ≠ j ∧ b.relink .insert i j = b' := by
  simp [connect, Option.bind_eq_some_iff]

theorem disconnect_eq_some_iff : b.disconnect origin target = some b' ↔
    ∃ i j, b.ends origin target = some (i, j) ∧ b.relink .erase i j = b' := by
  simp [disconnect, Option.bind_eq_some_iff]

end Primitives

theorem mem_neighborsOf : j ∈ b.neighborsOf i ↔
    ∃ t, b.territories[i]? = some t ∧ j ∈ t.neighbors := by
  rw [neighborsOf]
  cases b.territories[i]? <;> simp [Std.ExtTreeSet.mem_toList]

theorem lt_length_of_mem_neighborsOf (h : j ∈ b.neighborsOf i) : i < b.territories.length := by
  obtain ⟨t, ht, -⟩ := mem_neighborsOf.1 h
  exact (List.getElem?_eq_some_iff.1 ht).1

theorem mem_neighborsOf_updateTerritory {f : Territory → Territory}
    (hf : ∀ t, (f t).neighbors = t.neighbors) :
    j ∈ (b.updateTerritory i f).neighborsOf l ↔ j ∈ b.neighborsOf l := by
  simp only [mem_neighborsOf, getElem?_updateTerritory, Option.map_eq_some_iff,
    exists_exists_and_eq_and]
  by_cases hil : i = l <;> simp [hil, hf]

theorem mem_neighborsOf_connect (hi : i < b.territories.length) (hj : j < b.territories.length) :
    k ∈ (b.relink .insert i j).neighborsOf l ↔
      k ∈ b.neighborsOf l ∨ (l = i ∧ k = j) ∨ (l = j ∧ k = i) := by
  simp only [relink, mem_neighborsOf, getElem?_updateTerritory, Option.map_eq_some_iff,
    exists_exists_and_eq_and]
  by_cases hl : l < b.territories.length
  · simp only [List.getElem?_eq_getElem hl, Option.some.injEq, exists_eq_left']
    by_cases hjl : j = l <;> by_cases hil : i = l <;>
      simp [hjl, hil, Std.ExtTreeSet.mem_insert] <;> grind
  · simp [List.getElem?_eq_none (Nat.not_lt.1 hl)]
    grind

theorem mem_neighborsOf_disconnect :
    k ∈ (b.relink .erase i j).neighborsOf l ↔
      k ∈ b.neighborsOf l ∧ ¬ (l = i ∧ k = j) ∧ ¬ (l = j ∧ k = i) := by
  simp only [relink, mem_neighborsOf, getElem?_updateTerritory, Option.map_eq_some_iff,
    exists_exists_and_eq_and]
  by_cases hjl : j = l <;> by_cases hil : i = l <;>
    simp [hjl, hil, Std.ExtTreeSet.mem_erase] <;> grind

end Board

end Warboard
