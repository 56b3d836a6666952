import Warboard.Proofs.Dictionary.Numbering

namespace Warboard.Dictionary

open Checked

variable {d : Dictionary} {ids : Table UInt32} {key : String} {keys : List String} {e : Overflow}

theorem idFor_of_some {id : UInt32} (h : d.ids[key]? = some id) : d.idFor key = .ok (id, d) := by
  simp only [idFor, h]

theorem idFor_of_none (h : d.ids[key]? = none) : d.idFor key = (do
    let next ← addQuantity d.nextId 1
    return (d.nextId, { d with ids := d.ids.insert key d.nextId, nextId := next, dirty := true })) := by
  simp only [idFor, h]

theorem idFor_eq_error_iff (h : d.ids[key]? = none) :
    d.idFor key = .error e ↔ e = .add ∧ UInt32.size ≤ d.nextId.toNat + 1 := by
  have hone : (1 : UInt32).toNat = 1 := rfl
  rw [idFor_of_none h, bind_eq_error_iff, addQuantity_eq_error_iff, hone]
  simp [pure, Except.pure]

/-- Keys that have numbers need no others, so only the new ones count. -/
theorem idsFor_eq_error_iff : idsFor keys d = .error e ↔
    e = .add ∧ UInt32.size ≤ d.nextId.toNat + (newKeys d.ids keys).length := by
  have hnext := d.nextId.toNat_lt_size
  induction keys generalizing d with
  | nil =>
      constructor
      · intro h
        cases h
      · rintro ⟨-, hfull⟩
        exact absurd hfull (Nat.not_le.mpr hnext)
  | cons key keys ih =>
      -- After the first key only the rest can fail.
      have hrest (id : UInt32) (d' : Dictionary) :
          (idsFor keys d' >>= fun x => pure (id :: x.1, x.2) : Checked _) = .error e ↔
            idsFor keys d' = .error e := by
        simp [bind_eq_error_iff, pure, Except.pure]
      cases hkey : d.ids[key]? with
      | some id =>
          rw [idsFor, idFor_of_some hkey, newKeys_cons_of_some hkey]
          exact (hrest id d).trans (ih hnext)
      | none =>
          rw [idsFor, bind_eq_error_iff, idFor_eq_error_iff hkey, newKeys_cons_of_none hkey d.nextId,
            List.length_cons]
          constructor
          · rintro (⟨rfl, hfull⟩ | ⟨⟨id, d'⟩, hid, h⟩)
            · exact ⟨rfl, by omega⟩
            · obtain ⟨-, -, next, hsucc, rfl⟩ := (idFor_cases hid).resolve_left (by simp [hkey])
              obtain ⟨rfl, hfull⟩ := (ih next.toNat_lt_size).mp ((hrest id _).mp h)
              exact ⟨rfl, by simp only [hsucc] at hfull; omega⟩
          · rintro ⟨rfl, hfull⟩
            by_cases hone : UInt32.size ≤ d.nextId.toNat + 1
            · exact Or.inl ⟨rfl, hone⟩
            · obtain ⟨next, hsucc⟩ : ∃ next : UInt32, next.toNat = d.nextId.toNat + 1 :=
                ⟨UInt32.ofNat (d.nextId.toNat + 1), UInt32.toNat_ofNat_of_lt' (by omega)⟩
              have hadd : addQuantity d.nextId 1 = .ok next := addQuantity_eq_ok_iff.mpr hsucc
              refine Or.inr ⟨_, by rw [idFor_of_none hkey, hadd]; rfl, (hrest _ _).mpr ?_⟩
              exact (ih next.toNat_lt_size).mpr ⟨rfl, by simp only [hsucc]; omega⟩

/-- A number is left for one more key, and the one after it. -/
structure Roomy (ids : Table UInt32) : Prop where
  size_lt : ids.size % UInt32.size + 1 < UInt32.size
  lt : ∀ (key : String) (id : UInt32), ids[key]? = some id → id.toNat + 2 < UInt32.size

theorem IsNext.roomy_iff {next : UInt32} (h : IsNext ids next) :
    Roomy ids ↔ next.toNat + 1 < UInt32.size := by
  constructor
  · intro hroomy
    rcases h.least with hnext | ⟨key, id, hid, hnext⟩
    · exact hnext ▸ hroomy.size_lt
    · exact hnext ▸ hroomy.lt key id hid
  · intro hnext
    refine ⟨?_, fun key id hid => ?_⟩
    · have hsize := h.size_le
      omega
    · have habove := h.above key id hid
      omega

/-- There is a number after those of a table, unless the largest of all is among them. -/
theorem exists_isNext_iff : (∃ next, IsNext ids next) ↔
    ∀ (key : String) (id : UInt32), ids[key]? = some id → id.toNat + 1 < UInt32.size := by
  constructor
  · rintro ⟨next, h⟩ key id hid
    have habove := h.above key id hid
    have hnext := next.toNat_lt_size
    omega
  · intro hids
    cases hfree : firstFree ids with
    | ok next => exact ⟨next, firstFree_eq_ok_iff.mp hfree⟩
    | error e =>
        obtain ⟨before, id, after, n, hvalues, -, hfails⟩ := foldlM_eq_error_iff.mp hfree
        have hmem : id ∈ ids.values := hvalues ▸ List.mem_append_cons_self
        obtain ⟨key, hid⟩ := Table.mem_values.mp hmem
        have hlt := hids key id hid
        have hsucc : addQuantity id 1 = .error e := by
          simpa [bind_eq_error_iff, pure, Except.pure] using hfails
        have hfull := (addQuantity_eq_error_iff.mp hsucc).2
        rw [UInt32.toNat_one] at hfull
        omega

theorem exists_load_iff (home : String) (content : Option (List UInt8)) :
    (∃ d, load home content = .ok d) ↔ ∀ (key : String) (id : UInt32),
      (read content)[key]? = some id → id.toNat + 1 < UInt32.size := by
  rw [← exists_isNext_iff]
  constructor
  · rintro ⟨d, h⟩
    obtain ⟨-, hids, -, hnext⟩ := load_eq_ok_iff.mp h
    exact ⟨d.nextId, hids ▸ hnext⟩
  · rintro ⟨next, hnext⟩
    exact ⟨⟨some home, read content, next, false⟩, load_eq_ok_iff.mpr ⟨rfl, rfl, rfl, hnext⟩⟩

/-- A new key gets a number of its own as long as there is room. -/
theorem idFor_new_iff (hd : IsNext d.ids d.nextId) (hkey : d.ids[key]? = none) :
    (∃ id d', d.idFor key = .ok (id, d') ∧ d'.ids = d.ids.insert key id ∧
        ∀ (old : String) (id' : UInt32), d.ids[old]? = some id' → id' ≠ id) ↔ Roomy d.ids := by
  rw [hd.roomy_iff, ← Nat.not_le]
  constructor
  · rintro ⟨id, d', hid, -⟩ hfull
    have herror := (idFor_eq_error_iff (e := .add) hkey).mpr ⟨rfl, hfull⟩
    rw [hid] at herror
    cases herror
  · intro hroom
    cases hid : d.idFor key with
    | error e => exact absurd ((idFor_eq_error_iff hkey).mp hid).2 hroom
    | ok x =>
        obtain ⟨id, d'⟩ := x
        obtain ⟨-, rfl, next, -, rfl⟩ := (idFor_cases hid).resolve_left (by simp [hkey])
        refine ⟨_, _, rfl, rfl, fun old id' hold he => ?_⟩
        exact absurd (hd.above old id' hold) (by simp [he])

/-- Content that is no table of numbers counts as an empty one. Any other can be loaded unless it has
the largest number, and be added to as long as it is roomy: a new key gets a number of its own. -/
theorem load_extends (home : String) (content : Option (List UInt8)) :
    (content >>= Text.ofOctets >>= Json.parse >>= Table.ofJson Json.uint32? = none →
      load home content = .ok ⟨some home, ∅, 0, false⟩) ∧
    ((∃ d, load home content = .ok d) ↔ ∀ (key : String) (id : UInt32),
      (read content)[key]? = some id → id.toNat + 1 < UInt32.size) ∧
    ∀ key : String, (read content)[key]? = none →
      ((∃ d id d', load home content = .ok d ∧ d.idFor key = .ok (id, d') ∧
          d.ids = read content ∧ d'.ids = (read content).insert key id ∧
          ∀ (old : String) (id' : UInt32), (read content)[old]? = some id' → id' ≠ id) ↔
        Roomy (read content)) := by
  refine ⟨fun hnone => ?_, exists_load_iff home content, fun key hkey => ?_⟩
  · have hread : read content = ∅ := by rw [read, hnone, Option.getD_none]
    exact load_eq_ok_iff.mpr ⟨rfl, hread.symm, rfl, isNext_empty⟩
  · constructor
    · rintro ⟨d, id, d', hload, hid, hids, hinsert, hfresh⟩
      obtain ⟨-, -, -, hnext⟩ := load_eq_ok_iff.mp hload
      rw [← hids] at hkey hinsert hfresh ⊢
      exact (idFor_new_iff hnext hkey).mp ⟨id, d', hid, hinsert, hfresh⟩
    · intro hroomy
      obtain ⟨d, hload⟩ := (exists_load_iff home content).mpr fun old id hid => by
        have hlt := hroomy.lt old id hid
        omega
      obtain ⟨-, hids, -, hnext⟩ := load_eq_ok_iff.mp hload
      rw [← hids] at hkey hroomy ⊢
      obtain ⟨id, d', hid, hinsert, hfresh⟩ := (idFor_new_iff hnext hkey).mpr hroomy
      exact ⟨d, id, d', hload, hid, rfl, hinsert, hfresh⟩

def gappy : List UInt8 := Text.toOctets "\x7b\"a\": 7, \"b\": 1\x7d".toList

theorem load_extends_gappy :
    load "move_dict.json" none = .ok ⟨some "move_dict.json", ∅, 0, false⟩ ∧
    (read (some gappy))["c"]? = none ∧ Roomy (read (some gappy)) ∧
    ∃ d id d', load "move_dict.json" (some gappy) = .ok d ∧ d.idFor "c" = .ok (id, d') ∧
      d.ids = read (some gappy) ∧ d'.ids = (read (some gappy)).insert "c" id ∧
      ∀ (old : String) (id' : UInt32), (read (some gappy))[old]? = some id' → id' ≠ id := by
  have hkey : (read (some gappy))["c"]? = none := by decide +kernel
  obtain ⟨d, hload, hnextId⟩ := exists_ok_of_map (x := load "move_dict.json" (some gappy))
    (f := Dictionary.nextId) (b := 8) (by decide +kernel)
  obtain ⟨-, hids, -, hnext⟩ := load_eq_ok_iff.mp hload
  have hroomy : Roomy (read (some gappy)) := by
    rw [← hids, hnext.roomy_iff, hnextId]
    decide
  exact ⟨(load_extends "move_dict.json" none).1 rfl, hkey, hroomy,
    ((load_extends "move_dict.json" (some gappy)).2.2 "c" hkey).2 hroomy⟩

/-- The two largest numbers, each in a file of its own. -/
def largest : List UInt8 := Text.toOctets "\x7b\"a\": 4294967295\x7d".toList

def secondLargest : List UInt8 := Text.toOctets "\x7b\"a\": 4294967294\x7d".toList

/-- With the largest number there is no loading, and with the one before no adding. -/
theorem load_last : load "move_dict.json" (some largest) = .error .add ∧
    ∃ d, load "move_dict.json" (some secondLargest) = .ok d ∧ d.ids.toList = [("a", 4294967294)] ∧
      d.idFor "b" = .error .add := by
  refine ⟨by decide +kernel, ?_⟩
  obtain ⟨d, hload, h⟩ := exists_ok_of_map (x := load "move_dict.json" (some secondLargest))
    (f := fun d => decide (d.ids.toList = [("a", 4294967294)] ∧ d.idFor "b" = .error .add))
    (b := true) (by decide +kernel)
  obtain ⟨hlist, hfails⟩ := of_decide_eq_true h
  exact ⟨d, hload, hlist, hfails⟩

end Warboard.Dictionary
