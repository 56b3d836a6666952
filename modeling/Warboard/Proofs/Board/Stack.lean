import Mathlib.Data.List.Nodup
import Warboard.Board.Basic
import Warboard.Proofs.Checked

namespace Warboard

theorem quantity_sub_pos {a b : UInt32} (h : b < a) : 0 < a - b := by
  have hle : b ≤ a := UInt32.le_of_lt h
  rw [UInt32.lt_iff_toNat_lt] at h ⊢
  rw [UInt32.toNat_sub_of_le a b hle]
  exact Nat.sub_pos_of_lt h

namespace Stack

open Checked

variable {key k : UnitKey} {n : UInt32} {units units' : List Stack}

/-- A stack keeps its place, and a new one comes last. -/
theorem map_key_addTo (h : addTo key n units = .ok units') :
    units'.map Stack.key =
      if key ∈ units.map Stack.key then units.map Stack.key
      else units.map Stack.key ++ [key] := by
  induction units generalizing units' with
  | nil => cases h; rfl
  | cons s rest ih =>
      rw [addTo] at h
      by_cases hs : s.key = key
      · rw [if_pos hs, bind_eq_ok_iff] at h
        obtain ⟨q, -, h⟩ := h
        cases h
        simp [hs]
      · rw [if_neg hs, bind_eq_ok_iff] at h
        obtain ⟨later, hlater, h⟩ := h
        cases h
        rw [List.map_cons, ih hlater]
        by_cases hmem : key ∈ rest.map Stack.key <;> simp [hmem, Ne.symm hs]

theorem keys_nodup_addTo (hunits : (units.map Stack.key).Nodup)
    (h : addTo key n units = .ok units') : (units'.map Stack.key).Nodup := by
  rw [map_key_addTo h]
  split
  · exact hunits
  · rename_i hmem
    rw [← List.concat_eq_append]
    exact hunits.concat hmem

theorem quantity_pos_addTo (hunits : ∀ s ∈ units, 0 < s.quantity) (hn : 0 < n)
    (h : addTo key n units = .ok units') : ∀ s ∈ units', 0 < s.quantity := by
  induction units generalizing units' with
  | nil => cases h; simpa using hn
  | cons s rest ih =>
      obtain ⟨hs, hrest⟩ := List.forall_mem_cons.1 hunits
      rw [addTo] at h
      split at h
      · obtain ⟨q, hq, h⟩ := bind_eq_ok_iff.mp h
        cases h
        refine List.forall_mem_cons.2 ⟨?_, hrest⟩
        rw [addQuantity_eq_ok_iff] at hq
        rw [UInt32.lt_iff_toNat_lt] at hn ⊢
        exact hq ▸ Nat.add_pos_right _ hn
      · obtain ⟨later, hlater, h⟩ := bind_eq_ok_iff.mp h
        cases h
        exact List.forall_mem_cons.2 ⟨hs, ih hrest hlater⟩

theorem map_key_removeFrom (h : removeFrom key n units = some units') :
    (units'.map Stack.key).Sublist (units.map Stack.key) := by
  induction units generalizing units' with
  | nil => cases h
  | cons s rest ih =>
      rw [removeFrom] at h
      split at h
      · cases h
        split
        · exact List.sublist_cons_self _ _
        · exact List.Sublist.refl _
      · obtain ⟨later, hlater, rfl⟩ := Option.map_eq_some_iff.1 h
        exact (ih hlater).cons_cons s.key

theorem quantity_pos_removeFrom (hunits : ∀ s ∈ units, 0 < s.quantity)
    (h : removeFrom key n units = some units') : ∀ s ∈ units', 0 < s.quantity := by
  induction units generalizing units' with
  | nil => cases h
  | cons s rest ih =>
      obtain ⟨hs, hrest⟩ := List.forall_mem_cons.1 hunits
      rw [removeFrom] at h
      split at h
      · cases h
        split
        · exact hrest
        · rename_i hle
          exact List.forall_mem_cons.2 ⟨quantity_sub_pos (UInt32.not_le.1 hle), hrest⟩
      · obtain ⟨later, hlater, rfl⟩ := Option.map_eq_some_iff.1 h
        exact List.forall_mem_cons.2 ⟨hs, ih hrest hlater⟩

/-- Only marks change. -/
theorem map_markIn {f : Marks → Marks} (h : markIn key f units = some units') :
    units'.map (fun s => (s.key, s.quantity)) = units.map fun s => (s.key, s.quantity) := by
  induction units generalizing units' with
  | nil => cases h
  | cons s rest ih =>
      rw [markIn] at h
      split at h
      · cases h
        rfl
      · obtain ⟨later, hlater, rfl⟩ := Option.map_eq_some_iff.1 h
        rw [List.map_cons, List.map_cons, ih hlater]

/-- How many units of the key there are; none without a stack. -/
def quantityIn (key : UnitKey) (units : List Stack) : Nat :=
  ((find? key units).map fun s => s.quantity.toNat).getD 0

theorem quantityIn_nil (key : UnitKey) : quantityIn key [] = 0 := rfl

theorem quantityIn_cons (s : Stack) (units : List Stack) :
    quantityIn key (s :: units) =
      if s.key = key then s.quantity.toNat else quantityIn key units := by
  by_cases hs : s.key = key <;> simp [quantityIn, find?, hs]

theorem quantityIn_lt (key : UnitKey) (units : List Stack) :
    quantityIn key units < UInt32.size := by
  rw [quantityIn]
  cases find? key units with
  | none => decide
  | some s => exact s.quantity.toNat_lt_size

theorem quantityIn_eq_zero (h : key ∉ units.map Stack.key) : quantityIn key units = 0 := by
  induction units with
  | nil => rfl
  | cons s rest ih =>
      rw [List.map_cons, List.mem_cons, not_or] at h
      rw [quantityIn_cons, if_neg (Ne.symm h.1), ih h.2]

theorem quantityIn_addTo (h : addTo key n units = .ok units') :
    quantityIn k units' = quantityIn k units + if key = k then n.toNat else 0 := by
  induction units generalizing units' with
  | nil =>
      cases h
      rw [quantityIn_cons, quantityIn_nil, Nat.zero_add]
  | cons s rest ih =>
      rw [addTo] at h
      by_cases hs : s.key = key
      · rw [if_pos hs] at h
        obtain ⟨q, hq, h⟩ := bind_eq_ok_iff.mp h
        cases h
        rw [addQuantity_eq_ok_iff] at hq
        rw [quantityIn_cons, quantityIn_cons]
        by_cases hk : key = k <;> simp [hs, hk, hq]
      · rw [if_neg hs] at h
        obtain ⟨later, hlater, h⟩ := bind_eq_ok_iff.mp h
        cases h
        rw [quantityIn_cons, quantityIn_cons, ih hlater]
        by_cases hk : s.key = k
        · have hne : key ≠ k := fun he => hs (hk.trans he.symm)
          simp [hk, hne]
        · simp [hk]

/-- Adding fails only if the units are too many to be counted. -/
theorem addTo_eq_error_iff {e : Overflow} :
    addTo key n units = .error e ↔ e = .add ∧ UInt32.size ≤ quantityIn key units + n.toNat := by
  induction units with
  | nil =>
      have hn := n.toNat_lt_size
      rw [addTo, quantityIn_nil]
      simp only [reduceCtorEq, false_iff]
      omega
  | cons s rest ih =>
      rw [addTo, quantityIn_cons]
      split
      · rw [← addQuantity_eq_error_iff, bind_eq_error_iff]
        simp [pure, Except.pure]
      · rw [← ih, bind_eq_error_iff]
        simp [pure, Except.pure]

theorem quantityIn_removeFrom (hunits : (units.map Stack.key).Nodup)
    (h : removeFrom key n units = some units') :
    quantityIn k units' = quantityIn k units - if key = k then n.toNat else 0 := by
  induction units generalizing units' with
  | nil => cases h
  | cons s rest ih =>
      rw [List.map_cons, List.nodup_cons] at hunits
      rw [removeFrom] at h
      by_cases hs : s.key = key
      · rw [if_pos hs] at h
        cases h
        -- When the stack goes, no second one of its key comes into view.
        have hrest : quantityIn key rest = 0 := quantityIn_eq_zero (hs ▸ hunits.1)
        split
        · rename_i hle
          rw [UInt32.le_iff_toNat_le] at hle
          rw [quantityIn_cons]
          by_cases hk : key = k
          · subst hk
            simp only [if_pos hs, if_true, hrest]
            omega
          · simp [hs, hk]
        · rename_i hle
          have hsub := UInt32.toNat_sub_of_le s.quantity n (UInt32.le_of_lt (UInt32.not_le.1 hle))
          rw [quantityIn_cons, quantityIn_cons]
          by_cases hk : key = k <;> simp [hs, hk, hsub]
      · rw [if_neg hs] at h
        obtain ⟨later, hlater, rfl⟩ := Option.map_eq_some_iff.1 h
        rw [quantityIn_cons, quantityIn_cons, ih hunits.2 hlater]
        by_cases hk : s.key = k
        · have hne : key ≠ k := fun he => hs (hk.trans he.symm)
          simp [hk, hne]
        · simp [hk]

theorem quantityIn_of_removeFrom_eq_none (h : removeFrom key n units = none) :
    quantityIn key units = 0 := by
  induction units with
  | nil => rfl
  | cons s rest ih =>
      rw [removeFrom] at h
      by_cases hs : s.key = key
      · rw [if_pos hs] at h
        cases h
      · rw [if_neg hs, Option.map_eq_none_iff] at h
        rw [quantityIn_cons, if_neg hs, ih h]

theorem quantityIn_markIn {f : Marks → Marks} (h : markIn key f units = some units') :
    quantityIn k units' = quantityIn k units := by
  induction units generalizing units' with
  | nil => cases h
  | cons s rest ih =>
      rw [markIn] at h
      split at h
      · cases h
        rw [quantityIn_cons, quantityIn_cons]
      · obtain ⟨later, hlater, rfl⟩ := Option.map_eq_some_iff.1 h
        rw [quantityIn_cons, quantityIn_cons, ih hlater]

end Stack

end Warboard
