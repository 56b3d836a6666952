import Warboard.Proofs.Board.Positive
import Warboard.Proofs.Board.Sound

namespace Warboard

open Checked

/-- An entry of a table that some entries were put into is one of these or was there before. -/
theorem Table.getElem?_foldl_insert {α β : Type} {f : String → β → α} {P : String → α → Prop}
    {l : List (String × β)} (hl : ∀ p ∈ l, P p.1 (f p.1 p.2)) {t : Table α}
    (ht : ∀ (name : String), ∀ a ∈ t[name]?, P name a) :
    ∀ (name : String),
      ∀ a ∈ (l.foldl (fun t p => t.insert p.1 (f p.1 p.2)) t)[name]?, P name a := by
  induction l generalizing t with
  | nil => exact ht
  | cons p l ih =>
      obtain ⟨hp, hl⟩ := List.forall_mem_cons.1 hl
      apply ih hl
      intro name a ha
      rw [Option.mem_def, Std.ExtTreeMap.getElem?_insert] at ha
      split at ha
      · rename_i hname
        rw [Std.LawfulEqCmp.compare_eq_iff_eq] at hname
        cases ha
        exact hname ▸ hp
      · exact ht name a ha

/-- A record at the start: nothing is bought and no territory is taken. -/
structure Owner.Fresh (o : Owner) (name : String) : Prop where
  name_eq : o.name = name
  unplaced_eq : o.unplaced = ∅
  latest_eq : o.latest = none

namespace Board

variable {r : MapRecord} {b : Board}

theorem startingOwners_fresh {name : String} {o : Owner}
    (h : (startingOwners r)[name]? = some o) : o.Fresh name := by
  rw [startingOwners, Std.ExtTreeMap.foldl_eq_foldl_toList, Std.ExtTreeMap.ofList_eq_foldl] at h
  refine Table.getElem?_foldl_insert
    (f := fun name balance => { Owner.new name with balance := balance })
    (P := fun name o => o.Fresh name) ?_ ?_ name o h
  · exact fun p _ => ⟨rfl, rfl, rfl⟩
  · apply Table.getElem?_foldl_insert (f := fun _ o => o) (P := fun name o => Owner.Fresh o name)
    · intro p hp
      obtain ⟨name, -, rfl⟩ := List.mem_map.1 hp
      exact ⟨rfl, rfl, rfl⟩
    · intro name o ho
      rw [Option.mem_def, Std.ExtTreeMap.getElem?_empty] at ho
      cases ho

theorem bare_sound (r : MapRecord) : Sound r.territories ⟨bare r, startingOwners r⟩ where
  names_eq := by
    change (bare r).map Territory.name = r.territories
    rw [bare, List.map_map]
    exact List.map_id _
  keys_nodup t ht := by
    obtain ⟨name, -, rfl⟩ := List.mem_map.1 ht
    exact List.nodup_nil
  neighbors_symm i j h := by
    obtain ⟨t, ht, hj⟩ := mem_neighborsOf.1 h
    obtain ⟨name, -, rfl⟩ := List.mem_map.1 (List.mem_of_getElem? ht)
    exact absurd hj Std.ExtTreeSet.not_mem_empty
  neighbors_irrefl i h := by
    obtain ⟨t, ht, hi⟩ := mem_neighborsOf.1 h
    obtain ⟨name, -, rfl⟩ := List.mem_map.1 (List.mem_of_getElem? ht)
    exact absurd hi Std.ExtTreeSet.not_mem_empty
  owner_name name o ho := (startingOwners_fresh ho).name_eq
  latest_lt name o ho i hi := by
    rw [(startingOwners_fresh ho).latest_eq] at hi
    cases hi

theorem bare_positive (r : MapRecord) : Positive ⟨bare r, startingOwners r⟩ where
  garrisons t ht := by
    obtain ⟨name, -, rfl⟩ := List.mem_map.1 ht
    exact fun s hs => absurd hs List.not_mem_nil
  pools name o ho unit n hn := by
    rw [(startingOwners_fresh ho).unplaced_eq, Option.mem_def, Std.ExtTreeMap.getElem?_empty] at hn
    cases hn

/-- The units and the connections of the record are put on the board by the primitives; only the
victory cities are named after that. -/
theorem exists_ofRecord_eq {P : Board → Prop} (hbare : P ⟨bare r, startingOwners r⟩)
    (hunits : ∀ b, ∀ u ∈ r.startingUnits, ∀ i b', P b →
      b.addUnits i ⟨u.unit, u.owner⟩ u.quantity = .ok b' → P b')
    (hconnect : ∀ b origin target b', P b → b.connect origin target = some b' → P b')
    (h : ofRecord r = .ok b) : ∃ c, P c ∧ b = r.victoryCities.foldl addVictoryCity c := by
  obtain ⟨c, hc, h⟩ := bind_eq_ok_iff.mp h
  cases h
  have hplaced : P c := by
    refine foldlM_keeps_of_mem (fun b u hu b' hb hb' => ?_) hbare hc
    rw [placeStart] at hb'
    split at hb'
    · exact hunits b u hu _ b' hb hb'
    · cases hb'
      exact hb
  refine ⟨_, List.foldlRecOn r.connections _ hplaced fun b hb c _ => ?_, rfl⟩
  cases hcon : b.connect c.origin c.target with
  | none => exact hb
  | some b' => exact hconnect b _ _ b' hb hcon

theorem ofRecord_keeps {P : Board → Prop} (hbare : P ⟨bare r, startingOwners r⟩)
    (hunits : ∀ b, ∀ u ∈ r.startingUnits, ∀ i b', P b →
      b.addUnits i ⟨u.unit, u.owner⟩ u.quantity = .ok b' → P b')
    (hconnect : ∀ b origin target b', P b → b.connect origin target = some b' → P b')
    (hcity : ∀ b i, P b → P (b.updateTerritory i fun t => { t with victoryCity := true }))
    (h : ofRecord r = .ok b) : P b := by
  obtain ⟨c, hc, rfl⟩ := exists_ofRecord_eq hbare hunits hconnect h
  refine List.foldlRecOn r.victoryCities _ hc fun b hb city _ => ?_
  rw [addVictoryCity]
  split
  · exact hcity b _ hb
  · exact hb

theorem ofRecord_sound (h : ofRecord r = .ok b) : b.Sound r.territories := by
  refine ofRecord_keeps (bare_sound r) ?_ ?_ ?_ h
  · exact fun b u _ i b' hb hb' => hb.addUnits hb'
  · exact fun b origin target b' hb hb' => hb.connect hb'
  · exact fun b i hb => hb.updateFlag (fun _ => rfl) (fun _ => rfl) fun _ => rfl

theorem ofRecord_positive (hr : ∀ u ∈ r.startingUnits, 0 < u.quantity)
    (h : ofRecord r = .ok b) : b.Positive := by
  refine ofRecord_keeps (bare_positive r) ?_ ?_ ?_ h
  · exact fun b u hu i b' hb hb' => hb.addUnits (hr u hu) hb'
  · exact fun b origin target b' hb hb' => hb.connect hb'
  · exact fun b i hb => hb.updateFlag fun _ => rfl

end Board

end Warboard
