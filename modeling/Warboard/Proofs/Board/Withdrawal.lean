import Warboard.Proofs.Board.Enrolment
import Warboard.Proofs.Board.Positive
import Warboard.Proofs.Game.Operation
import Warboard.Proofs.Table

namespace Warboard

open Checked

/-- What each step of a loop did is undone by as many steps back, whatever their order. -/
theorem Checked.foldl_undo {σ α : Type} {step : σ → α → Checked σ} (P : σ → Prop)
    (back : σ → α → σ)
    (hcomm : ∀ s a a', back (back s a) a' = back (back s a') a)
    (hback : ∀ s a s', P s → step s a = .ok s' → P s' ∧ back s' a = s)
    {xs ys : List α} (hperm : ys.Perm xs) {s s' : σ} (hs : P s) (h : xs.foldlM step s = .ok s') :
    ys.foldl back s' = s := by
  -- Taken against the order of the steps, each step back meets what its own step made.
  rw [(hperm.trans xs.reverse_perm.symm).foldl_eq' fun a _ a' _ s => hcomm s a a']
  clear hperm
  induction xs generalizing s with
  | nil => cases h; rfl
  | cons a xs ih =>
      rw [List.foldlM_cons, bind_eq_ok_iff] at h
      obtain ⟨u, hu, h⟩ := h
      obtain ⟨hPu, hundo⟩ := hback s a u hs hu
      rw [List.reverse_cons, List.foldl_concat, ih hPu h, hundo]

theorem sub_of_addQuantity {a n c : UInt32} (ha : 0 < a) (h : addQuantity a n = .ok c) :
    n < c ∧ c - n = a := by
  rw [addQuantity_eq_ok_iff] at h
  rw [UInt32.lt_iff_toNat_lt, UInt32.toNat_zero] at ha
  have hlt : n < c := UInt32.lt_iff_toNat_lt.2 (by omega)
  refine ⟨hlt, ?_⟩
  rw [← UInt32.toNat_inj, UInt32.toNat_sub_of_le c n (UInt32.le_of_lt hlt)]
  omega

namespace Stack

variable {key k : UnitKey} {n : UInt32} {units units' : List Stack}

/-- The stacks with fewer units of the key, if there are any. -/
def reduced (key : UnitKey) (n : UInt32) (units : List Stack) : List Stack :=
  (removeFrom key n units).getD units

theorem reduced_cons (s : Stack) (units : List Stack) : reduced key n (s :: units) =
    if s.key = key then
      if s.quantity ≤ n then units else { s with quantity := s.quantity - n } :: units
    else s :: reduced key n units := by
  rw [reduced, reduced, removeFrom]
  by_cases hs : s.key = key
  · simp [hs]
  · rw [if_neg hs, if_neg hs]
    cases removeFrom key n units <;> rfl

theorem reduced_comm (key k : UnitKey) (n : UInt32) (units : List Stack) :
    reduced k n (reduced key n units) = reduced key n (reduced k n units) := by
  by_cases hk : key = k
  · rw [hk]
  induction units with
  | nil => rfl
  | cons s rest ih =>
      rw [reduced_cons, reduced_cons]
      by_cases hs : s.key = key
      · have hsk : s.key ≠ k := fun h => hk (hs.symm.trans h)
        rw [if_pos hs, if_neg hsk, reduced_cons, if_pos hs]
        split
        · rfl
        · rw [reduced_cons, if_neg hsk]
      · by_cases hsk : s.key = k
        · rw [if_neg hs, if_pos hsk, reduced_cons, if_pos hsk]
          split
          · rfl
          · rw [reduced_cons, if_neg hs]
        · rw [if_neg hs, if_neg hsk, reduced_cons, if_neg hsk, reduced_cons, if_neg hs, ih]

/-- A stack of no units would go with those that joined it. -/
theorem reduced_addTo (hunits : ∀ s ∈ units, 0 < s.quantity) (h : addTo key n units = .ok units') :
    reduced key n units' = units := by
  induction units generalizing units' with
  | nil =>
      cases h
      rw [reduced_cons, if_pos rfl, if_pos (UInt32.le_refl n)]
  | cons s rest ih =>
      obtain ⟨hs, hrest⟩ := List.forall_mem_cons.1 hunits
      rw [addTo] at h
      by_cases hkey : s.key = key
      · rw [if_pos hkey, bind_eq_ok_iff] at h
        obtain ⟨q, hq, h⟩ := h
        cases h
        obtain ⟨hlt, hsub⟩ := sub_of_addQuantity hs hq
        rw [reduced_cons, if_pos hkey, if_neg (UInt32.not_le.2 hlt), hsub]
      · rw [if_neg hkey, bind_eq_ok_iff] at h
        obtain ⟨later, hlater, h⟩ := h
        cases h
        rw [reduced_cons, if_neg hkey, ih hrest hlater]

end Stack

namespace Board

variable {b b' : Board} {i : TerritoryId} {key : UnitKey} {player unit : String} {n : UInt32}

theorem removeUnits_getD (b : Board) (i : TerritoryId) (key : UnitKey) (n : UInt32) :
    (b.removeUnits i key n).getD b =
      b.updateTerritory i fun t => { t with units := Stack.reduced key n t.units } :=
  updateUnits_getD b i (Stack.removeFrom key n)

theorem removeUnits_comm (b : Board) (i : TerritoryId) (key k : UnitKey) (n : UInt32) :
    let without (b : Board) (key : UnitKey) := (b.removeUnits i key n).getD b
    without (without b key) k = without (without b k) key := by
  simp only [removeUnits_getD, updateTerritory_comp]
  congr 1
  funext t
  simp only [Function.comp, Stack.reduced_comm key k]

theorem addUnits_eq_update (h : b.addUnits i key n = .ok b') : ∃ f : List Stack → List Stack,
    b' = b.updateTerritory i (fun t => { t with units := f t.units }) ∧
      ∀ t, b.territories[i]? = some t → Stack.addTo key n t.units = .ok (f t.units) := by
  obtain ⟨t, units, ht, hunits, rfl⟩ | ⟨ht, rfl⟩ := addUnits_eq_ok_iff.1 h
  · refine ⟨fun _ => units, rfl, fun u hu => ?_⟩
    obtain rfl := Option.some.inj (ht.symm.trans hu)
    exact hunits
  · refine ⟨id, (updateTerritory_id b i).symm, fun u hu => ?_⟩
    cases ht.symm.trans hu

theorem removeUnits_addUnits (hb : b.Positive) (h : b.addUnits i key n = .ok b') :
    (b'.removeUnits i key n).getD b' = b := by
  obtain ⟨f, rfl, hf⟩ := addUnits_eq_update h
  rw [removeUnits_getD, updateTerritory_comp]
  refine (updateTerritory_congr fun t ht => ?_).trans (updateTerritory_id b i)
  have hback := Stack.reduced_addTo (hb.garrisons t (List.mem_of_getElem? ht)) (hf t ht)
  rw [Function.comp, hback]
  rfl

theorem updateOwner_comp (b : Board) (player : String) (f g : Owner → Owner) :
    (b.updateOwner player f).updateOwner player g = b.updateOwner player (g ∘ f) := by
  rw [Board.mk.injEq]
  refine ⟨rfl, ?_⟩
  ext1 name
  simp only [getElem?_updateOwner, if_true, Option.getD_some, Function.comp]
  split <;> rfl

theorem updateOwner_of_fixed {o : Owner} {f : Owner → Owner} (ho : b.owners[player]? = some o)
    (hf : f o = o) : b.updateOwner player f = b := by
  rw [Board.mk.injEq]
  refine ⟨rfl, ?_⟩
  ext1 name
  rw [getElem?_updateOwner]
  split
  · rename_i hname
    rw [← hname, ho, Option.getD_some, hf]
  · rfl

theorem removeUnplaced_comm (b : Board) (player unit unit' : String) (n : UInt32) :
    (b.removeUnplaced player unit n).removeUnplaced player unit' n =
      (b.removeUnplaced player unit' n).removeUnplaced player unit n := by
  simp only [removeUnplaced, updateOwner_comp]
  congr 1
  funext o
  simp only [Function.comp, Owner.mk.injEq, true_and, and_true]
  ext1 name
  simp only [Std.ExtTreeMap.getElem?_alter, Std.LawfulEqCmp.compare_eq_iff_eq]
  by_cases hunit : unit = unit'
  · rw [hunit]
  · by_cases hname : unit = name
    · subst hname
      simp [Ne.symm hunit]
    · simp [hname, hunit]

/-- What is taken from an entry again leaves it as it was, or drops it if it was not there. -/
theorem alter_insert_pool {pool : Table UInt32} {total : UInt32}
    (hpool : ∀ q ∈ pool[unit]?, 0 < q) (h : addQuantity (pool.getD unit 0) n = .ok total) :
    ((pool.insert unit total).alter unit fun q => q.bind fun q =>
      if q ≤ n then none else some (q - n)) = pool := by
  rw [Std.ExtTreeMap.getD_eq_getD_getElem?] at h
  have hself : (if total ≤ n then none else some (total - n)) = pool[unit]? := by
    cases hq : pool[unit]? with
    | none =>
        rw [hq, Option.getD_none, addQuantity_eq_ok_iff, UInt32.toNat_zero, Nat.zero_add,
          UInt32.toNat_inj] at h
        rw [if_pos (h ▸ UInt32.le_refl n)]
    | some q =>
        rw [hq, Option.getD_some] at h
        obtain ⟨hlt, hsub⟩ := sub_of_addQuantity (hpool q hq) h
        rw [if_neg (UInt32.not_le.2 hlt), hsub]
  ext1 name
  simp only [Std.ExtTreeMap.getElem?_alter, Std.LawfulEqCmp.compare_eq_iff_eq]
  by_cases hname : unit = name
  · rw [if_pos hname, Std.ExtTreeMap.getElem?_insert_self, Option.bind_some, hself, hname]
  · rw [if_neg hname, Table.getElem?_insert, if_neg hname]

theorem mem_owners_addUnplaced (h : b.addUnplaced player unit n = .ok b') : player ∈ b'.owners := by
  obtain ⟨total, -, h⟩ := bind_eq_ok_iff.mp h
  cases h
  exact mem_updateOwner_owners.2 (Or.inl rfl)

theorem exists_record (h : player ∈ b.owners) :
    ∃ o, b.owners[player]? = some o ∧ b.unplacedOf player = o.unplaced := by
  rw [Std.ExtTreeMap.mem_iff_isSome_getElem?, Option.isSome_iff_exists] at h
  obtain ⟨o, ho⟩ := h
  refine ⟨o, ho, ?_⟩
  rw [unplacedOf, ho]
  rfl

theorem removeUnplaced_addUnplaced (hb : b.Positive) (hplayer : player ∈ b.owners)
    (h : b.addUnplaced player unit n = .ok b') : b'.removeUnplaced player unit n = b := by
  obtain ⟨total, htotal, h⟩ := bind_eq_ok_iff.mp h
  cases h
  obtain ⟨o, ho, hpool⟩ := exists_record hplayer
  rw [hpool] at htotal
  rw [removeUnplaced, updateOwner_comp]
  refine updateOwner_of_fixed ho ?_
  rw [Function.comp, alter_insert_pool (hb.pools player o ho unit) htotal]

end Board

end Warboard
