import Warboard.Proofs.Board.Sound

namespace Warboard

open Checked

namespace Board

variable {b b' : Board} {i j : TerritoryId} {op : Operation}

/-- How many units of the type the player has still to place. -/
def waiting (b : Board) (player unit : String) : Nat := ((b.unplacedOf player).getD unit 0).toNat

/-- Does the name lead to the territory? -/
def leadsTo (b : Board) (i : TerritoryId) (name : String) : Bool := b.locate name = some i

theorem Sound.leadsTo_eq {names : List String} (h : b.Sound names) (h' : b'.Sound names) :
    b'.leadsTo i = b.leadsTo i := by
  funext name
  rw [leadsTo, leadsTo, h.locate_eq h']

namespace Operation

/-- How many units of the key are in the territory after the operation, if there were `n`. -/
def quantityAfter (i : TerritoryId) (key : UnitKey) (n : Nat) : Operation → Nat
  | .addUnits j k m => if j = i ∧ k = key then n + m.toNat else n
  | .removeUnits j k m => if j = i ∧ k = key then n - m.toNat else n
  | _ => n

/-- Who owns the territory after the operation; `here` says which names lead to it. -/
def ownerAfter (here : String → Bool) (owner : String) : Operation → String
  | .setOwner territory player => if here territory then player else owner
  | _ => owner

def battleAfter (i : TerritoryId) (battle : Bool) : Operation → Bool
  | .startBattle j => battle || j = i
  | _ => battle

def balanceAfter (player : String) (balance : Int) : Operation → Int
  | .adjustBalance p delta => if p = player then balance + delta.toInt else balance
  | _ => balance

/-- Does the operation change marks only? -/
def isMark : Operation → Bool
  | .setProperty .. => true
  | _ => false

/-- What the operation changes of a territory. -/
structure Turns (op : Operation) (here : String → Bool) (i : TerritoryId) (t t' : Territory) :
    Prop where
  quantity : ∀ key, Stack.quantityIn key t'.units =
    op.quantityAfter i key (Stack.quantityIn key t.units)
  owner : t'.owner = op.ownerAfter here t.owner
  battle : t'.battle = op.battleAfter i t.battle

structure TurnAll (ops : List Operation) (here : String → Bool) (i : TerritoryId)
    (t t' : Territory) : Prop where
  quantity : ∀ key, Stack.quantityIn key t'.units =
    ops.foldl (quantityAfter i key) (Stack.quantityIn key t.units)
  owner : t'.owner = ops.foldl (ownerAfter here) t.owner
  battle : t'.battle = ops.foldl (battleAfter i) t.battle

theorem TurnAll.cons {op : Operation} {ops : List Operation} {here : String → Bool}
    {i : TerritoryId} {t u v : Territory} (h : op.Turns here i t u) (h' : TurnAll ops here i u v) :
    TurnAll (op :: ops) here i t v where
  quantity key := by rw [List.foldl_cons, h'.quantity, h.quantity]
  owner := by rw [List.foldl_cons, h'.owner, h.owner]
  battle := by rw [List.foldl_cons, h'.battle, h.battle]

theorem TurnAll.filter {ops : List Operation} {here : String → Bool} {i : TerritoryId}
    {t t' : Territory} (h : TurnAll ops here i t t') :
    TurnAll (ops.filter fun op => !op.isMark) here i t t' where
  quantity key := by
    rw [h.quantity, List.foldl_filter]
    congr 1
    funext n op
    cases op <;> rfl
  owner := by
    rw [h.owner, List.foldl_filter]
    congr 1
    funext owner op
    cases op <;> rfl
  battle := by
    rw [h.battle, List.foldl_filter]
    congr 1
    funext battle op
    cases op <;> rfl

end Operation

variable {here : String → Bool} {t : Territory}

/-- A territory that is changed turns into its new state, and any other stays as it is. -/
theorem turns_of_update {f : Territory → Territory} (ht : b.territories[i]? = some t)
    (hself : j = i → op.Turns here i t (f t)) (hother : j ≠ i → op.Turns here i t t) :
    ∃ t', (b.updateTerritory j f).territories[i]? = some t' ∧ op.Turns here i t t' := by
  rw [getElem?_updateTerritory, ht, Option.map_some]
  by_cases hj : j = i
  · exact ⟨f t, by rw [if_pos hj], hself hj⟩
  · exact ⟨t, by rw [if_neg hj], hother hj⟩

theorem turns_setOwner {territory player : String} (ht : b.territories[i]? = some t) :
    ∃ t', ((b.setOwner territory player).getD b).territories[i]? = some t' ∧
      (Operation.setOwner territory player).Turns (b.leadsTo i) i t t' := by
  rw [setOwner]
  cases hl : b.locate territory with
  | none => exact ⟨t, ht, fun _ => rfl, by simp [Operation.ownerAfter, leadsTo, hl], rfl⟩
  | some j =>
      apply turns_of_update ht
      · exact fun hj => ⟨fun _ => rfl, by simp [Operation.ownerAfter, leadsTo, hl, hj], rfl⟩
      · exact fun hj => ⟨fun _ => rfl, by simp [Operation.ownerAfter, leadsTo, hl, hj], rfl⟩

theorem turns_addUnits {key : UnitKey} {n : UInt32} (here : String → Bool)
    (h : b.addUnits j key n = .ok b') (ht : b.territories[i]? = some t) :
    ∃ t', b'.territories[i]? = some t' ∧ (Operation.addUnits j key n).Turns here i t t' := by
  have hother (hne : j ≠ i) : (Operation.addUnits j key n).Turns here i t t :=
    ⟨fun k => by simp [Operation.quantityAfter, hne], rfl, rfl⟩
  obtain ⟨u, units, hu, hunits, rfl⟩ | ⟨hu, rfl⟩ := addUnits_eq_ok_iff.1 h
  · refine turns_of_update ht (fun hj => ⟨fun k => ?_, rfl, rfl⟩) hother
    obtain rfl : u = t := Option.some.inj (hu.symm.trans (hj ▸ ht))
    rw [Stack.quantityIn_addTo hunits]
    by_cases hk : key = k <;> simp [Operation.quantityAfter, hj, hk]
  · exact ⟨t, ht, hother fun hj => by simp [hj, ht] at hu⟩

theorem turns_removeUnits {key : UnitKey} {n : UInt32} (ht : b.territories[i]? = some t)
    (hkeys : (t.units.map Stack.key).Nodup) :
    ∃ t', ((b.removeUnits j key n).getD b).territories[i]? = some t' ∧
      (Operation.removeUnits j key n).Turns here i t t' := by
  have hother (hne : j ≠ i) : (Operation.removeUnits j key n).Turns here i t t :=
    ⟨fun k => by simp [Operation.quantityAfter, hne], rfl, rfl⟩
  cases h : b.removeUnits j key n with
  | none =>
      refine ⟨t, ht, fun k => ?_, rfl, rfl⟩
      -- Only for the units that were to go is there something to show: there were none.
      by_cases hjk : j = i ∧ key = k
      · obtain ⟨rfl, rfl⟩ := hjk
        cases hunits : Stack.removeFrom key n t.units with
        | some units => simp [removeUnits, ht, hunits] at h
        | none => simp [Operation.quantityAfter, Stack.quantityIn_of_removeFrom_eq_none hunits]
      · rw [Operation.quantityAfter, if_neg hjk]
  | some b' =>
      obtain ⟨u, units, hu, hunits, rfl⟩ := removeUnits_eq_some_iff.1 h
      refine turns_of_update ht (fun hj => ⟨fun k => ?_, rfl, rfl⟩) hother
      obtain rfl : u = t := Option.some.inj (hu.symm.trans (hj ▸ ht))
      rw [Stack.quantityIn_removeFrom hkeys hunits]
      by_cases hk : key = k <;> simp [Operation.quantityAfter, hj, hk]

theorem turns_setProperty {key : UnitKey} {property value : String}
    (ht : b.territories[i]? = some t) :
    ∃ t', ((b.setProperty j key property value).getD b).territories[i]? = some t' ∧
      (Operation.setProperty j key property value).Turns here i t t' := by
  have hsame : (Operation.setProperty j key property value).Turns here i t t :=
    ⟨fun _ => rfl, rfl, rfl⟩
  cases h : b.setProperty j key property value with
  | none => exact ⟨t, ht, hsame⟩
  | some b' =>
      obtain ⟨u, units, hu, hunits, rfl⟩ := mark_eq_some_iff.1 h
      refine turns_of_update ht (fun hj => ⟨fun k => ?_, rfl, rfl⟩) fun _ => hsame
      obtain rfl : u = t := Option.some.inj (hu.symm.trans (hj ▸ ht))
      exact Stack.quantityIn_markIn hunits

theorem getElem?_relink {f : Std.ExtTreeSet TerritoryId → TerritoryId → Std.ExtTreeSet TerritoryId}
    {k l : TerritoryId} (ht : b.territories[i]? = some t) :
    ∃ neighbors, (b.relink f k l).territories[i]? = some { t with neighbors := neighbors } := by
  simp only [relink, getElem?_updateTerritory, ht, Option.map_some]
  by_cases hk : k = i <;> by_cases hl : l = i <;> simp only [hk, hl, if_true, if_false]
  · exact ⟨_, rfl⟩
  · exact ⟨_, rfl⟩
  · exact ⟨_, rfl⟩
  · exact ⟨t.neighbors, rfl⟩

theorem getElem?_connect {origin target : String} (ht : b.territories[i]? = some t) :
    ∃ neighbors, ((b.connect origin target).getD b).territories[i]? =
      some { t with neighbors := neighbors } := by
  cases h : b.connect origin target with
  | none => exact ⟨t.neighbors, ht⟩
  | some b' =>
      obtain ⟨k, l, -, -, rfl⟩ := connect_eq_some_iff.1 h
      exact getElem?_relink ht

theorem getElem?_disconnect {origin target : String} (ht : b.territories[i]? = some t) :
    ∃ neighbors, ((b.disconnect origin target).getD b).territories[i]? =
      some { t with neighbors := neighbors } := by
  cases h : b.disconnect origin target with
  | none => exact ⟨t.neighbors, ht⟩
  | some b' =>
      obtain ⟨k, l, -, rfl⟩ := disconnect_eq_some_iff.1 h
      exact getElem?_relink ht

theorem turns_of_perform (h : b.perform op = .ok b') (ht : b.territories[i]? = some t)
    (hkeys : (t.units.map Stack.key).Nodup) :
    ∃ t', b'.territories[i]? = some t' ∧
      op.Turns (b.leadsTo i) i t t' := by
  cases op with
  | setOwner territory player => cases h; exact turns_setOwner ht
  | addUnits j key n => exact turns_addUnits _ h ht
  | removeUnits j key n => cases h; exact turns_removeUnits ht hkeys
  | setProperty j key property value => cases h; exact turns_setProperty ht
  | startBattle j =>
      cases h
      apply turns_of_update ht
      · exact fun hj => ⟨fun _ => rfl, rfl, by simp [Operation.battleAfter, hj]⟩
      · exact fun hj => ⟨fun _ => rfl, rfl, by simp [Operation.battleAfter, hj]⟩
  | addUnplaced | adjustBalance =>
      obtain ⟨_, -, h⟩ := bind_eq_ok_iff.mp h
      cases h
      exact ⟨t, ht, fun _ => rfl, rfl, rfl⟩
  | removeUnplaced | clearUnplaced =>
      cases h
      exact ⟨t, ht, fun _ => rfl, rfl, rfl⟩
  | connect origin target =>
      cases h
      obtain ⟨neighbors, ht'⟩ := getElem?_connect ht
      exact ⟨_, ht', fun _ => rfl, rfl, rfl⟩
  | disconnect origin target =>
      cases h
      obtain ⟨neighbors, ht'⟩ := getElem?_disconnect ht
      exact ⟨_, ht', fun _ => rfl, rfl, rfl⟩

/-- Names keep leading where they led, so the operations can be followed one after another. -/
theorem turnAll_of_foldlM {names : List String} {ops : List Operation} (hb : b.Sound names)
    (h : ops.foldlM perform b = .ok b') (ht : b.territories[i]? = some t) :
    ∃ t', b'.territories[i]? = some t' ∧
      Operation.TurnAll ops (b.leadsTo i) i t t' := by
  induction ops generalizing b t with
  | nil =>
      cases h
      exact ⟨t, ht, fun _ => rfl, rfl, rfl⟩
  | cons op ops ih =>
      rw [List.foldlM_cons, bind_eq_ok_iff] at h
      obtain ⟨c, hc, h⟩ := h
      obtain ⟨u, hu, hstep⟩ := turns_of_perform hc ht (hb.keys_nodup t (List.mem_of_getElem? ht))
      obtain ⟨t', ht', hrest⟩ := ih (hb.perform hc) h hu
      rw [hb.leadsTo_eq (hb.perform hc)] at hrest
      exact ⟨t', ht', .cons hstep hrest⟩

theorem balanceOf_updateOwner {f : Owner → Owner} (hf : ∀ o, (f o).balance = o.balance)
    (player name : String) : (b.updateOwner player f).balanceOf name = b.balanceOf name := by
  rw [balanceOf, balanceOf, getElem?_updateOwner]
  by_cases hname : player = name
  · subst hname
    rw [if_pos rfl, Option.map_some, Option.getD_some, hf]
    cases b.owners[player]? <;> rfl
  · rw [if_neg hname]

theorem balanceOf_clearUnplaced (player name : String) :
    (b.clearUnplaced player).balanceOf name = b.balanceOf name := by
  rw [balanceOf, balanceOf, clearUnplaced, Std.ExtTreeMap.getElem?_modify]
  split
  · rename_i hname
    rw [Std.LawfulEqCmp.compare_eq_iff_eq] at hname
    subst hname
    cases b.owners[player]? <;> rfl
  · rfl

theorem balanceOf_adjustBalance {player name : String} {delta : Int64}
    (h : b.adjustBalance player delta = .ok b') : (b'.balanceOf name).toInt =
      (Operation.adjustBalance player delta).balanceAfter name (b.balanceOf name).toInt := by
  obtain ⟨balance, hbalance, h⟩ := bind_eq_ok_iff.mp h
  cases h
  rw [addAmount_eq_ok_iff] at hbalance
  rw [balanceOf, getElem?_updateOwner, Operation.balanceAfter]
  by_cases hname : player = name
  · subst hname
    rw [if_pos rfl, if_pos rfl, ← hbalance]
    rfl
  · rw [if_neg hname, if_neg hname]
    rfl

theorem balanceOf_setOwner {territory player name : String}
    (h : b.setOwner territory player = some b') : b'.balanceOf name = b.balanceOf name := by
  obtain ⟨i, -, rfl⟩ := Option.map_eq_some_iff.1 h
  refine (balanceOf_updateOwner ?_ player name).trans rfl
  exact fun _ => rfl

theorem balanceOf_addUnplaced {player unit name : String} {n : UInt32}
    (h : b.addUnplaced player unit n = .ok b') : b'.balanceOf name = b.balanceOf name := by
  obtain ⟨total, -, h⟩ := bind_eq_ok_iff.mp h
  cases h
  refine balanceOf_updateOwner ?_ player name
  exact fun _ => rfl

theorem balanceOf_removeUnplaced (player unit name : String) (n : UInt32) :
    (b.removeUnplaced player unit n).balanceOf name = b.balanceOf name := by
  refine balanceOf_updateOwner ?_ player name
  exact fun _ => rfl

theorem owners_removeUnits {key : UnitKey} {n : UInt32} (h : b.removeUnits i key n = some b') :
    b'.owners = b.owners := by
  obtain ⟨t, units, -, -, rfl⟩ := removeUnits_eq_some_iff.1 h
  rfl

theorem owners_mark {key : UnitKey} {f : Marks → Marks} (h : b.mark i key f = some b') :
    b'.owners = b.owners := by
  obtain ⟨t, units, -, -, rfl⟩ := mark_eq_some_iff.1 h
  rfl

theorem owners_connect {origin target : String} (h : b.connect origin target = some b') :
    b'.owners = b.owners := by
  obtain ⟨i, j, -, -, rfl⟩ := connect_eq_some_iff.1 h
  rfl

theorem owners_disconnect {origin target : String} (h : b.disconnect origin target = some b') :
    b'.owners = b.owners := by
  obtain ⟨i, j, -, rfl⟩ := disconnect_eq_some_iff.1 h
  rfl

theorem owners_addUnits {key : UnitKey} {n : UInt32} (h : b.addUnits i key n = .ok b') :
    b'.owners = b.owners := by
  obtain ⟨t, units, -, -, rfl⟩ | ⟨-, rfl⟩ := addUnits_eq_ok_iff.1 h <;> rfl

theorem balanceOf_getD {c : Option Board} {player : String}
    (hc : ∀ b' ∈ c, b'.balanceOf player = b.balanceOf player) :
    (c.getD b).balanceOf player = b.balanceOf player :=
  getD_keeps (P := fun b' => b'.balanceOf player = b.balanceOf player) rfl hc

theorem balanceOf_congr {player : String} (h : b'.owners = b.owners) :
    b'.balanceOf player = b.balanceOf player := by
  rw [balanceOf, balanceOf, h]

/-- Only payments change a balance. -/
theorem balanceOf_perform (h : b.perform op = .ok b') (player : String) :
    (b'.balanceOf player).toInt = op.balanceAfter player (b.balanceOf player).toInt := by
  have hsame (hb : b'.balanceOf player = b.balanceOf player)
      (hop : ∀ x, op.balanceAfter player x = x) :
      (b'.balanceOf player).toInt = op.balanceAfter player (b.balanceOf player).toInt := by
    rw [hb, hop]
  cases op with
  | adjustBalance name delta => exact balanceOf_adjustBalance h
  | setOwner =>
      cases h
      exact hsame (balanceOf_getD fun _ hc => balanceOf_setOwner hc) fun _ => rfl
  | addUnits => exact hsame (balanceOf_congr (owners_addUnits h)) fun _ => rfl
  | removeUnits =>
      cases h
      exact hsame (balanceOf_getD fun _ hc => balanceOf_congr (owners_removeUnits hc)) fun _ => rfl
  | setProperty =>
      cases h
      exact hsame (balanceOf_getD fun _ hc => balanceOf_congr (owners_mark hc)) fun _ => rfl
  | startBattle =>
      cases h
      rfl
  | addUnplaced => exact hsame (balanceOf_addUnplaced h) fun _ => rfl
  | removeUnplaced =>
      cases h
      exact hsame (balanceOf_removeUnplaced ..) fun _ => rfl
  | clearUnplaced =>
      cases h
      exact hsame (balanceOf_clearUnplaced _ player) fun _ => rfl
  | connect =>
      cases h
      exact hsame (balanceOf_getD fun _ hc => balanceOf_congr (owners_connect hc)) fun _ => rfl
  | disconnect =>
      cases h
      exact hsame (balanceOf_getD fun _ hc => balanceOf_congr (owners_disconnect hc)) fun _ => rfl

theorem balanceOf_foldlM {ops : List Operation} (h : ops.foldlM perform b = .ok b')
    (player : String) : (b'.balanceOf player).toInt =
      ops.foldl (Operation.balanceAfter player) (b.balanceOf player).toInt := by
  induction ops generalizing b with
  | nil => cases h; rfl
  | cons op ops ih =>
      rw [List.foldlM_cons, bind_eq_ok_iff] at h
      obtain ⟨c, hc, h⟩ := h
      rw [ih h, List.foldl_cons, balanceOf_perform hc]

end Board

end Warboard
