import Mathlib.Data.List.Nodup
import Warboard.Dictionary
import Warboard.Proofs.Checked
import Warboard.Proofs.Table

namespace Warboard

open Checked

theorem UInt32.toNat_max (m n : UInt32) : (max m n).toNat = max m.toNat n.toNat := by
  have hmax : max m n = if m ≤ n then n else m := rfl
  rw [hmax]
  split
  · rename_i h
    exact (Nat.max_eq_right (UInt32.le_iff_toNat_le.mp h)).symm
  · rename_i h
    exact (Nat.max_eq_left (by rw [UInt32.le_iff_toNat_le] at h; omega)).symm

namespace Dictionary

/-- Is the number the next one after those of a table? It is above all of them, and no less than the
size of the table as far as its type can tell. -/
structure IsNext (ids : Table UInt32) (next : UInt32) : Prop where
  above : ∀ (key : String) (id : UInt32), ids[key]? = some id → id.toNat < next.toNat
  size_le : ids.size % UInt32.size ≤ next.toNat
  least : next.toNat = ids.size % UInt32.size ∨
    ∃ (key : String) (id : UInt32), ids[key]? = some id ∧ next.toNat = id.toNat + 1

/-- The largest of a number and the successors of others. -/
theorem foldlM_max_eq_ok_iff {ids : List UInt32} {n m : UInt32} :
    (ids.foldlM (fun n id => do return max n (← addQuantity id 1)) n : Checked UInt32) = .ok m ↔
      n.toNat ≤ m.toNat ∧ (∀ id ∈ ids, id.toNat < m.toNat) ∧
        (m.toNat = n.toNat ∨ ∃ id ∈ ids, m.toNat = id.toNat + 1) := by
  induction ids generalizing n with
  | nil =>
      rw [List.foldlM_nil, pure, Applicative.toPure, Monad.toApplicative]
      constructor
      · rintro ⟨⟩
        simp
      · rintro ⟨-, -, h | ⟨id, hid, -⟩⟩
        · exact congrArg _ (UInt32.toNat_inj.mp h.symm)
        · exact absurd hid List.not_mem_nil
  | cons id ids ih =>
      have hsucc (k : UInt32) : addQuantity id 1 = .ok k ↔ k.toNat = id.toNat + 1 :=
        addQuantity_eq_ok_iff
      rw [List.foldlM_cons, bind_eq_ok_iff, List.forall_mem_cons]
      constructor
      · rintro ⟨_, hmax, h⟩
        obtain ⟨k, hk, hmax⟩ := bind_eq_ok_iff.mp hmax
        cases hmax
        obtain ⟨hle, habove, hleast⟩ := ih.mp h
        rw [UInt32.toNat_max, (hsucc k).mp hk] at hle hleast
        refine ⟨by omega, ⟨by omega, habove⟩, ?_⟩
        rcases hleast with hm | ⟨i, hi, hm⟩
        · by_cases hn : id.toNat + 1 ≤ n.toNat
          · exact Or.inl (by omega)
          · exact Or.inr ⟨id, List.mem_cons_self, by omega⟩
        · exact Or.inr ⟨i, List.mem_cons_of_mem id hi, hm⟩
      · rintro ⟨hle, ⟨hid, habove⟩, hleast⟩
        have hm := m.toNat_lt_size
        obtain ⟨k, hk⟩ : ∃ k : UInt32, k.toNat = id.toNat + 1 :=
          ⟨UInt32.ofNat (id.toNat + 1), UInt32.toNat_ofNat_of_lt' (by omega)⟩
        refine ⟨max n k, by rw [(hsucc k).mpr hk]; rfl, ih.mpr ?_⟩
        rw [UInt32.toNat_max, hk]
        refine ⟨by omega, habove, ?_⟩
        rcases hleast with hm | ⟨i, hi, hm⟩
        · exact Or.inl (by omega)
        · rcases List.mem_cons.mp hi with rfl | hi
          · exact Or.inl (by omega)
          · exact Or.inr ⟨i, hi, hm⟩

theorem firstFree_eq_ok_iff {ids : Table UInt32} {next : UInt32} :
    firstFree ids = .ok next ↔ IsNext ids next := by
  rw [firstFree, foldlM_max_eq_ok_iff, UInt32.toNat_ofNat']
  simp only [Table.mem_values]
  constructor
  · rintro ⟨hsize, habove, hleast⟩
    refine ⟨fun key id h => habove id ⟨key, h⟩, hsize, hleast.imp_right ?_⟩
    rintro ⟨id, ⟨key, h⟩, hnext⟩
    exact ⟨key, id, h, hnext⟩
  · rintro ⟨habove, hsize, hleast⟩
    refine ⟨hsize, fun id hid => hid.elim fun key h => habove key id h, hleast.imp_right ?_⟩
    rintro ⟨key, id, h, hnext⟩
    exact ⟨id, ⟨key, h⟩, hnext⟩

theorem isNext_empty : IsNext ∅ 0 where
  above := fun key id h => by simp at h
  size_le := Nat.zero_le _
  least := Or.inl rfl

/-- The number of a new key is the next one, so that the one after it is next. -/
theorem IsNext.insert {ids : Table UInt32} {id next : UInt32} (h : IsNext ids id) {key : String}
    (hkey : ids[key]? = none) (hnext : next.toNat = id.toNat + 1) :
    IsNext (ids.insert key id) next where
  above := fun name i hi => by
    rw [Table.getElem?_insert] at hi
    split at hi
    · cases hi
      omega
    · have hlt := h.above name i hi
      omega
  size_le := by
    have hsize := h.size_le
    rw [Table.size_insert_of_none hkey]
    simp only [UInt32.size] at hsize ⊢
    omega
  least := Or.inr ⟨key, id, by rw [Table.getElem?_insert, if_pos rfl], hnext⟩

theorem load_eq_ok_iff {home : String} {content : Option (List UInt8)} {d : Dictionary} :
    load home content = .ok d ↔ d.home = some home ∧ d.ids = read content ∧ d.dirty = false ∧
      IsNext d.ids d.nextId := by
  rw [load, bind_eq_ok_iff]
  obtain ⟨dhome, ids, next, dirty⟩ := d
  constructor
  · rintro ⟨n, hn, h⟩
    cases h
    exact ⟨rfl, rfl, rfl, firstFree_eq_ok_iff.mp hn⟩
  · rintro ⟨rfl, rfl, rfl, hn⟩
    exact ⟨next, firstFree_eq_ok_iff.mpr hn, rfl⟩

/-- The second dictionary is the first with the new keys, which are numbered one after another. -/
structure Adds (d : Dictionary) (new : List String) (d' : Dictionary) : Prop where
  home : d'.home = d.home
  nodup : new.Nodup
  absent : ∀ key ∈ new, d.ids[key]? = none
  given : ∀ (i : Nat) (key : String), new[i]? = some key →
    ∃ id, d'.ids[key]? = some id ∧ id.toNat = d.nextId.toNat + i
  kept : ∀ key ∉ new, d'.ids[key]? = d.ids[key]?
  next : d'.nextId.toNat = d.nextId.toNat + new.length
  size : d'.ids.size = d.ids.size + new.length
  isNext : IsNext d.ids d.nextId → IsNext d'.ids d'.nextId

namespace Adds

variable {d d' d'' : Dictionary} {new new' : List String}

theorem of_same (hhome : d'.home = d.home) (hids : d'.ids = d.ids)
    (hnext : d'.nextId = d.nextId) : Adds d [] d' where
  home := hhome
  nodup := List.nodup_nil
  absent := fun _ h => absurd h List.not_mem_nil
  given := fun _ _ h => by simp at h
  kept := fun _ _ => by rw [hids]
  next := congrArg UInt32.toNat hnext
  size := by rw [hids, List.length_nil, Nat.add_zero]
  isNext := fun h => by rwa [hids, hnext]

theorem refl (d : Dictionary) : Adds d [] d := of_same rfl rfl rfl

theorem keeps (h : Adds d new d') {key : String} {id : UInt32} (hid : d.ids[key]? = some id) :
    d'.ids[key]? = some id := by
  rw [h.kept key fun hmem => absurd (h.absent key hmem) (by simp [hid]), hid]

theorem isSome_of_mem (h : Adds d new d') {key : String} (hkey : key ∈ new) :
    ∃ id, d'.ids[key]? = some id := by
  obtain ⟨i, hi⟩ := List.getElem?_of_mem hkey
  obtain ⟨id, hid, -⟩ := h.given i key hi
  exact ⟨id, hid⟩

theorem trans (h : Adds d new d') (h' : Adds d' new' d'') : Adds d (new ++ new') d'' where
  home := h'.home.trans h.home
  nodup := List.nodup_append.mpr ⟨h.nodup, h'.nodup, by
    rintro key hkey _ hkey' rfl
    obtain ⟨id, hid⟩ := h.isSome_of_mem hkey
    simp [h'.absent key hkey'] at hid⟩
  absent := fun key hkey => by
    rcases List.mem_append.mp hkey with hkey | hkey
    · exact h.absent key hkey
    · rw [Option.eq_none_iff_forall_ne_some]
      intro id hid
      exact absurd (h'.absent key hkey) (by simp [h.keeps hid])
  given := fun i key hi => by
    by_cases hlt : i < new.length
    · rw [List.getElem?_append_left hlt] at hi
      obtain ⟨id, hid, hnum⟩ := h.given i key hi
      exact ⟨id, h'.keeps hid, hnum⟩
    · rw [List.getElem?_append_right (by omega)] at hi
      obtain ⟨id, hid, hnum⟩ := h'.given (i - new.length) key hi
      exact ⟨id, hid, by rw [hnum, h.next]; omega⟩
  kept := fun key hkey => by
    obtain ⟨hnew, hnew'⟩ := not_or.mp (mt List.mem_append.mpr hkey)
    rw [h'.kept key hnew', h.kept key hnew]
  next := by rw [h'.next, h.next, List.length_append, Nat.add_assoc]
  size := by rw [h'.size, h.size, List.length_append, Nat.add_assoc]
  isNext := fun hd => h'.isNext (h.isNext hd)

/-- A key that had no number is one of the new keys, and its number says which. -/
theorem number (h : Adds d new d') {key : String} {id : UInt32} (hkey : d.ids[key]? = none)
    (hid : d'.ids[key]? = some id) :
    ∃ i, new[i]? = some key ∧ id.toNat = d.nextId.toNat + i := by
  have hmem : key ∈ new := by
    by_contra hne
    rw [h.kept key hne, hkey] at hid
    cases hid
  obtain ⟨i, hi⟩ := List.getElem?_of_mem hmem
  obtain ⟨id', hid', hnum⟩ := h.given i key hi
  exact ⟨i, hi, Option.some.inj (hid.symm.trans hid') ▸ hnum⟩

/-- A new number is above all that were given before. -/
theorem above (h : Adds d new d') (hd : IsNext d.ids d.nextId) {key key' : String} {id id' : UInt32}
    (hid : d.ids[key]? = some id) (hkey' : d.ids[key']? = none) (hid' : d'.ids[key']? = some id') :
    id.toNat < id'.toNat := by
  obtain ⟨i, -, hnum⟩ := h.number hkey' hid'
  have hlt := hd.above key id hid
  omega

/-- Two keys with one number are the same key, if one of them is new. -/
theorem unique (h : Adds d new d') (hd : IsNext d.ids d.nextId) {key key' : String}
    {id : UInt32} (hkey : d.ids[key]? = none) (hid : d'.ids[key]? = some id)
    (hid' : d'.ids[key']? = some id) : key' = key := by
  have hkey' : d.ids[key']? = none := by
    rw [Option.eq_none_iff_forall_ne_some]
    intro id' hold
    have hlt := h.above hd hold hkey hid
    rw [Option.some.inj (hid'.symm.trans (h.keeps hold))] at hlt
    exact Nat.lt_irrefl _ hlt
  obtain ⟨i, hi, hnum⟩ := h.number hkey hid
  obtain ⟨i', hi', hnum'⟩ := h.number hkey' hid'
  obtain rfl : i = i' := by omega
  exact Option.some.inj (hi'.symm.trans hi)

end Adds

/-- The keys that a table lacks, each where it comes first. -/
def newKeys (ids : Table UInt32) (keys : List String) : List String :=
  (keys.filter fun key => ids[key]? = none).eraseDups

variable {ids : Table UInt32} {key : String} {keys : List String} {id : UInt32}

theorem mem_newKeys : key ∈ newKeys ids keys ↔ key ∈ keys ∧ ids[key]? = none := by
  rw [newKeys, List.mem_eraseDups, List.mem_filter, decide_eq_true_eq]

theorem newKeys_cons_of_some (h : ids[key]? = some id) :
    newKeys ids (key :: keys) = newKeys ids keys := by
  rw [newKeys, List.filter_cons_of_neg (by simp [h]), newKeys]

theorem newKeys_cons_of_none (h : ids[key]? = none) (id : UInt32) :
    newKeys ids (key :: keys) = key :: newKeys (ids.insert key id) keys := by
  have hinsert (name : String) : decide ((ids.insert key id)[name]? = none) =
      (!name == key && decide (ids[name]? = none)) := by
    rw [Table.getElem?_insert]
    by_cases hname : key = name
    · simp [hname]
    · simp [hname, Ne.symm hname]
  rw [newKeys, newKeys, List.filter_cons_of_pos (by simp [h]), List.eraseDups_cons,
    List.filter_filter]
  simp only [hinsert]

variable {d d' : Dictionary}

/-- What asking for one number does. -/
theorem idFor_cases (h : d.idFor key = .ok (id, d')) :
    d.ids[key]? = some id ∧ d' = d ∨
      d.ids[key]? = none ∧ id = d.nextId ∧ ∃ next : UInt32, next.toNat = d.nextId.toNat + 1 ∧
        d' = { d with ids := d.ids.insert key d.nextId, nextId := next, dirty := true } := by
  rw [idFor] at h
  split at h
  · rename_i hid
    cases h
    exact Or.inl ⟨hid, rfl⟩
  · rename_i hkey
    obtain ⟨next, hnext, h⟩ := bind_eq_ok_iff.mp h
    cases h
    exact Or.inr ⟨hkey, rfl, next, addQuantity_eq_ok_iff.mp hnext, rfl⟩

theorem idFor_eq_some (h : d.idFor key = .ok (id, d')) : d'.ids[key]? = some id := by
  rcases idFor_cases h with ⟨hid, rfl⟩ | ⟨-, rfl, next, -, rfl⟩
  · exact hid
  · exact (Table.getElem?_insert ..).trans (if_pos rfl)

theorem idFor_eq_or_dirty (h : d.idFor key = .ok (id, d')) : d' = d ∨ d'.dirty = true := by
  rcases idFor_cases h with ⟨-, rfl⟩ | ⟨-, -, next, -, rfl⟩
  · exact Or.inl rfl
  · exact Or.inr rfl

theorem idFor_adds (h : d.idFor key = .ok (id, d')) : Adds d (newKeys d.ids [key]) d' := by
  rcases idFor_cases h with ⟨hid, rfl⟩ | ⟨hkey, -, next, hnext, rfl⟩
  · rw [newKeys_cons_of_some hid]
    exact .refl d'
  · rw [newKeys_cons_of_none hkey id]
    exact {
      home := rfl
      nodup := List.nodup_singleton key
      absent := fun name hname => List.mem_singleton.mp hname ▸ hkey
      given := fun i name hname => by
        obtain ⟨rfl, rfl⟩ : i = 0 ∧ key = name := by cases i <;> simp_all [newKeys]
        exact ⟨d.nextId, (Table.getElem?_insert ..).trans (if_pos rfl), rfl⟩
      kept := fun name hname => (Table.getElem?_insert ..).trans
        (if_neg fun he : key = name => hname (he ▸ List.mem_singleton_self key))
      next := hnext
      size := Table.size_insert_of_none hkey _
      isNext := fun hd => hd.insert hkey hnext }

variable {given : List UInt32}

theorem idsFor_adds (h : idsFor keys d = .ok (given, d')) :
    Adds d (newKeys d.ids keys) d' := by
  induction keys generalizing d given with
  | nil =>
      cases h
      exact .refl _
  | cons key keys ih =>
      obtain ⟨⟨id, d₁⟩, hid, h⟩ := bind_eq_ok_iff.mp h
      obtain ⟨⟨rest, d₂⟩, hrest, h⟩ := bind_eq_ok_iff.mp h
      cases h
      have h := (idFor_adds hid).trans (ih hrest)
      rcases idFor_cases hid with ⟨hkey, rfl⟩ | ⟨hkey, -, next, -, rfl⟩
      · rw [newKeys_cons_of_some hkey] at h ⊢
        exact h
      · rw [newKeys_cons_of_none hkey d.nextId] at h ⊢
        exact h

theorem idsFor_singleton (h : d.idFor key = .ok (id, d')) : idsFor [key] d = .ok ([id], d') := by
  rw [idsFor, h]
  rfl

theorem idsFor_eq_or_dirty (h : idsFor keys d = .ok (given, d')) :
    d' = d ∨ d'.dirty = true := by
  induction keys generalizing d given with
  | nil =>
      cases h
      exact Or.inl rfl
  | cons key keys ih =>
      obtain ⟨⟨id, d₁⟩, hid, h⟩ := bind_eq_ok_iff.mp h
      obtain ⟨⟨rest, d₂⟩, hrest, h⟩ := bind_eq_ok_iff.mp h
      cases h
      rcases ih hrest with rfl | hdirty
      · exact idFor_eq_or_dirty hid
      · exact Or.inr hdirty

/-- The numbers are the ones that the keys have in the end. -/
theorem idsFor_forall₂ (h : idsFor keys d = .ok (given, d')) :
    List.Forall₂ (fun key id => d'.ids[key]? = some id) keys given := by
  induction keys generalizing d given with
  | nil =>
      cases h
      exact .nil
  | cons key keys ih =>
      obtain ⟨⟨id, d₁⟩, hid, h⟩ := bind_eq_ok_iff.mp h
      obtain ⟨⟨rest, d₂⟩, hrest, h⟩ := bind_eq_ok_iff.mp h
      cases h
      exact .cons ((idsFor_adds hrest).keeps (idFor_eq_some hid)) (ih hrest)

theorem exists_number (h : idsFor keys d = .ok (given, d')) (hkey : key ∈ keys) :
    ∃ id, d'.ids[key]? = some id := by
  have hadds := idsFor_adds h
  cases hid : d.ids[key]? with
  | none => exact hadds.isSome_of_mem (mem_newKeys.mpr ⟨hkey, hid⟩)
  | some id => exact ⟨id, hadds.keeps hid⟩

/-- Nothing is written down for keys that have numbers. -/
theorem idsFor_eq_self (hkeys : newKeys d.ids keys = [])
    (h : idsFor keys d = .ok (given, d')) : d' = d := by
  induction keys generalizing d given with
  | nil =>
      cases h
      rfl
  | cons key keys ih =>
      obtain ⟨⟨id, d₁⟩, hid, h⟩ := bind_eq_ok_iff.mp h
      obtain ⟨⟨rest, d₂⟩, hrest, h⟩ := bind_eq_ok_iff.mp h
      cases h
      rcases idFor_cases hid with ⟨hkey, rfl⟩ | ⟨hkey, -⟩
      · rw [newKeys_cons_of_some hkey] at hkeys
        exact ih hkeys hrest
      · rw [newKeys_cons_of_none hkey id] at hkeys
        cases hkeys

theorem register_eq_ok_iff {new : Bool} : d.register keys = .ok (new, d') ↔
    ∃ ids, idsFor keys d = .ok (ids, d') ∧ new = decide (newKeys d.ids keys ≠ []) := by
  rw [register, bind_eq_ok_iff]
  constructor
  · rintro ⟨⟨ids, d₁⟩, h, hnew⟩
    cases hnew
    refine ⟨ids, h, ?_⟩
    rw [(idsFor_adds h).size]
    simp [List.length_pos_iff]
  · rintro ⟨ids, h, rfl⟩
    refine ⟨⟨ids, d'⟩, h, ?_⟩
    simp [(idsFor_adds h).size, List.length_pos_iff, pure, Except.pure]

theorem register_adds {new : Bool} (h : d.register keys = .ok (new, d')) :
    Adds d (newKeys d.ids keys) d' := by
  obtain ⟨given, hgiven, -⟩ := register_eq_ok_iff.mp h
  exact idsFor_adds hgiven

end Dictionary

end Warboard
