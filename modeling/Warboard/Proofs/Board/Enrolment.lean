import Warboard.Proofs.Board.Effect
import Warboard.Proofs.Board.Start
import Warboard.Proofs.Table

namespace Warboard

open Checked

theorem Table.mem_foldl_insert {α β : Type} {f : String → β → α} {l : List (String × β)}
    {t : Table α} {name : String} :
    name ∈ l.foldl (fun t p => t.insert p.1 (f p.1 p.2)) t ↔ name ∈ l.map Prod.fst ∨ name ∈ t := by
  induction l generalizing t with
  | nil => simp
  | cons p l ih =>
      rw [List.foldl_cons, ih, Std.ExtTreeMap.mem_insert, Std.LawfulEqCmp.compare_eq_iff_eq,
        List.map_cons, List.mem_cons]
      grind

/-- The map has a record for the player. -/
def MapRecord.Enrols (r : MapRecord) (name : String) : Prop :=
  name ∈ r.players ∨ name ∈ r.initialResources

namespace Board

variable {b b' : Board} {r : MapRecord} {name : String} {op : Operation}

theorem mem_startingOwners : name ∈ startingOwners r ↔ r.Enrols name := by
  rw [startingOwners, Std.ExtTreeMap.foldl_eq_foldl_toList]
  refine Table.mem_foldl_insert (f := fun name balance => { Owner.new name with balance := balance })
    |>.trans ?_
  rw [Std.ExtTreeMap.mem_ofList, Std.ExtTreeMap.map_fst_toList_eq_keys, Std.ExtTreeMap.mem_keys,
    MapRecord.Enrols]
  simp [Function.comp_def, or_comm]

theorem mem_owners_ofRecord (h : ofRecord r = .ok b) : name ∈ b.owners ↔ r.Enrols name := by
  have howners : b.owners = startingOwners r := by
    refine ofRecord_keeps (P := fun b => b.owners = startingOwners r) rfl ?_ ?_ ?_ h
    · exact fun b u _ i b' hb hb' => (owners_addUnits hb').trans hb
    · exact fun b origin target b' hb hb' => (owners_connect hb').trans hb
    · exact fun b i hb => hb
  rw [howners, mem_startingOwners]

theorem mem_updateOwner_owners {f : Owner → Owner} {player : String} :
    name ∈ (b.updateOwner player f).owners ↔ name = player ∨ name ∈ b.owners := by
  rw [Std.ExtTreeMap.mem_iff_isSome_getElem?, getElem?_updateOwner,
    Std.ExtTreeMap.mem_iff_isSome_getElem?]
  by_cases hplayer : player = name
  · simp [hplayer]
  · simp [hplayer, Ne.symm hplayer]

theorem mem_clearUnplaced_owners {player : String} :
    name ∈ (b.clearUnplaced player).owners ↔ name ∈ b.owners :=
  Std.ExtTreeMap.mem_modify

/-- The player that gets a record by the operation, if there is none yet. A territory that is not on
the map is given to nobody. -/
def Operation.enrols (names : List String) : Operation → Option String
  | .setOwner territory player => if territory ∈ names then some player else none
  | .addUnplaced player _ _ | .removeUnplaced player _ _ | .adjustBalance player _ => some player
  | _ => none

theorem mem_owners_setOwner {names : List String} {territory player : String}
    (hb : b.Sound names) : name ∈ ((b.setOwner territory player).getD b).owners ↔
      territory ∈ names ∧ player = name ∨ name ∈ b.owners := by
  rw [setOwner, ← hb.isSome_locate_iff]
  cases b.locate territory with
  | none => simp
  | some i =>
      rw [Option.map_some, Option.getD_some, mem_updateOwner_owners, eq_comm]
      simp [updateTerritory]

theorem mem_owners_perform {names : List String} (hb : b.Sound names) (h : b.perform op = .ok b') :
    name ∈ b'.owners ↔ op.enrols names = some name ∨ name ∈ b.owners := by
  have hsame (howners : b'.owners = b.owners) (hop : op.enrols names = none) :
      name ∈ b'.owners ↔ op.enrols names = some name ∨ name ∈ b.owners := by
    rw [howners, hop]
    simp
  have hgetD {c : Option Board} (hc : ∀ b' ∈ c, b'.owners = b.owners) :
      (c.getD b).owners = b.owners :=
    getD_keeps (P := fun b' => b'.owners = b.owners) rfl hc
  cases op with
  | setOwner territory player =>
      cases h
      rw [mem_owners_setOwner hb, Operation.enrols, Option.ite_none_right_eq_some,
        Option.some.injEq]
  | addUnits i key n => exact hsame (owners_addUnits h) rfl
  | removeUnits i key n => cases h; exact hsame (hgetD fun _ hc => owners_removeUnits hc) rfl
  | setProperty i key property value => cases h; exact hsame (hgetD fun _ hc => owners_mark hc) rfl
  | startBattle i => cases h; exact hsame rfl rfl
  | addUnplaced | adjustBalance =>
      obtain ⟨_, -, h⟩ := bind_eq_ok_iff.mp h
      cases h
      exact mem_updateOwner_owners.trans (by simp [Operation.enrols, eq_comm])
  | removeUnplaced player unit n =>
      cases h
      exact mem_updateOwner_owners.trans (by simp [Operation.enrols, eq_comm])
  | clearUnplaced player =>
      cases h
      exact mem_clearUnplaced_owners.trans (by simp [Operation.enrols])
  | connect origin target => cases h; exact hsame (hgetD fun _ hc => owners_connect hc) rfl
  | disconnect origin target => cases h; exact hsame (hgetD fun _ hc => owners_disconnect hc) rfl

theorem mem_owners_foldlM {names : List String} {ops : List Operation} (hb : b.Sound names)
    (h : ops.foldlM perform b = .ok b') :
    name ∈ b'.owners ↔ (∃ op ∈ ops, op.enrols names = some name) ∨ name ∈ b.owners := by
  induction ops generalizing b with
  | nil =>
      cases h
      simp
  | cons op ops ih =>
      rw [List.foldlM_cons, bind_eq_ok_iff] at h
      obtain ⟨c, hc, h⟩ := h
      rw [ih (hb.perform hc) h, mem_owners_perform hb hc]
      simp only [List.exists_mem_cons_iff, or_assoc, or_left_comm]

end Board

end Warboard
