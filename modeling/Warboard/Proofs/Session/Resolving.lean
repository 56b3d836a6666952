import Mathlib.Data.List.Forall2
import Warboard.Proofs.Dictionary.Key
import Warboard.Proofs.Moves.Listing
import Warboard.Proofs.Session.Restart

namespace Warboard

open Checked Directory

namespace Dictionary

/-- No number stands for two keys. -/
def Distinct (ids : Table UInt32) : Prop :=
  ∀ (key key' : String) (id : UInt32), ids[key]? = some id → ids[key']? = some id → key' = key

theorem Adds.distinct {d d' : Dictionary} {new : List String} (h : Adds d new d')
    (hd : IsNext d.ids d.nextId) (hdistinct : Distinct d.ids) : Distinct d'.ids := by
  intro key key' id hid hid'
  cases hkey : d.ids[key]? with
  | none => exact h.unique hd hkey hid hid'
  | some old =>
      cases hkey' : d.ids[key']? with
      | none => exact (h.unique hd hkey' hid' hid).symm
      | some old' =>
          obtain rfl := Option.some.inj ((h.keeps hkey).symm.trans hid)
          obtain rfl := Option.some.inj ((h.keeps hkey').symm.trans hid')
          exact hdistinct key key' _ hkey hkey'

/-- The number stands for the purchase. -/
def Stands (ids : Table UInt32) (purchase : Purchase) (id : UInt32) : Prop :=
  ids[purchase.key]? = some id

end Dictionary

namespace Directory

variable {dir dir' : Directory}

theorem recordsOf_append (h : dir.writable = true) (episode : UInt32) (record : PurchaseRecord)
    (name : String) : ((dir.append episode record).getD dir).recordsOf name =
      if datasetName episode = name then dir.recordsOf name ++ [record]
      else dir.recordsOf name := by
  rw [append, write, if_pos h, Option.getD_some]
  conv_lhs => rw [recordsOf, Table.getElem?_insert]
  by_cases hname : datasetName episode = name
  · rw [if_pos hname, if_pos hname, hname]
  · rw [if_neg hname, if_neg hname, recordsOf]

/-- To write a file of another kind adds no record to a dataset. -/
theorem recordsOf_write {target : String} {file : File} (h : dir.write target file = some dir')
    (hfile : ∀ records, file ≠ .dataset records) (name : String) :
    dir'.recordsOf name = dir.recordsOf name ∨ dir'.recordsOf name = [] := by
  rw [write] at h
  split at h
  · cases h
    by_cases hname : target = name
    · refine Or.inr ?_
      rw [recordsOf, Table.getElem?_insert, if_pos hname]
      cases file with
      | dataset records => exact absurd rfl (hfile records)
      | octets | archive => rfl
    · refine Or.inl ?_
      rw [recordsOf, Table.getElem?_insert, if_neg hname, recordsOf]
  · cases h

theorem recordsOf_archive (dir : Directory) (episode : UInt32) (winner : Text) (name : String) :
    ((dir.archive episode winner).getD dir).recordsOf name = dir.recordsOf name ∨
      ((dir.archive episode winner).getD dir).recordsOf name = [] := by
  cases h : dir.archive episode winner with
  | none => exact Or.inl rfl
  | some dir' =>
      rcases archive_eq_some h with rfl | ⟨records, packed, hwrite, rfl⟩
      · exact Or.inl rfl
      · rw [Option.getD_some]
        by_cases hname : datasetName episode = name
        · refine Or.inr ?_
          rw [recordsOf, Table.getElem?_erase, if_pos hname]
        · have hkept : recordsOf { packed with files := packed.files.erase (datasetName episode) }
              name = packed.recordsOf name := by
            rw [recordsOf, Table.getElem?_erase, if_neg hname, recordsOf]
          rw [hkept]
          exact recordsOf_write hwrite (fun _ he => by cases he) name

end Directory

namespace Session

open Dictionary

variable {σ : Type} {p : Picker σ} {home : String} {catalog : Catalog} {s t : Session σ}

theorem saveDictionary_adds (s : Session σ) : Adds s.dictionary [] s.saveDictionary.dictionary := by
  rw [saveDictionary]
  cases h : s.dictionary.save s.directory with
  | none => exact .refl s.dictionary
  | some x =>
      obtain ⟨d, dir⟩ := x
      obtain rfl := save_eq_some h
      exact .clean s.dictionary

theorem recordsOf_saveDictionary (s : Session σ) (name : String) :
    s.saveDictionary.directory.recordsOf name = s.directory.recordsOf name ∨
      s.saveDictionary.directory.recordsOf name = [] := by
  rw [saveDictionary]
  cases h : s.dictionary.save s.directory with
  | none => exact Or.inl rfl
  | some x =>
      rcases save_writes h with hdir | ⟨home, -, hwrite⟩
      · exact Or.inl (congrArg (recordsOf · name) hdir)
      · exact recordsOf_write hwrite (fun _ he => by cases he) name

/-- A line gives no number to a key that has one. -/
theorem handle_adds {line : Text} {r : Option Response} (h : s.handle p line = .ok (r, t)) :
    ∃ new, Adds s.dictionary new t.dictionary := by
  rcases handle_books h with hsame | ⟨winner, hend⟩ | ⟨player, hahead⟩ | ⟨player, text, hmade⟩
  · exact ⟨[], hsame.dictionary ▸ .refl _⟩
  · obtain ⟨episode, -, hend⟩ := bind_eq_ok_iff.mp hend
    cases hend
    exact ⟨[], .refl _⟩
  · obtain ⟨purchases, new, d, -, hd, rfl⟩ := expectPurchase_eq_ok hahead
    have hadds := register_adds hd
    split
    · exact ⟨_, hadds.trans (saveDictionary_adds (s.recalled player purchases d))⟩
    · exact ⟨_, hadds⟩
  · rcases purchaseMade_eq_ok hmade with ⟨-, rfl⟩ | ⟨record, u, hdecision, rfl⟩
    · exact ⟨[], .refl _⟩
    · obtain ⟨purchase, -, hrecord⟩ := decision_eq_some hdecision
      obtain ⟨-, -, d, d', hd, hd', rfl⟩ := recordOf_eq_some hrecord
      exact ⟨_, ((idsFor_adds hd).trans (idFor_adds hd')).trans
        (saveDictionary_adds { s with dictionary := d' })⟩

theorem run_adds {lines : List Text} {rs : List (Option Response)}
    (h : run p lines s = .ok (rs, t)) : ∃ new, Adds s.dictionary new t.dictionary := by
  refine run_keeps (P := fun u => ∃ new, Adds s.dictionary new u.dictionary) (fun hs ht => ?_)
    ⟨[], .refl s.dictionary⟩ h
  obtain ⟨new, hnew⟩ := hs
  obtain ⟨more, hmore⟩ := handle_adds ht
  exact ⟨_, hnew.trans hmore⟩

/-- Each purchase that is remembered has a number. -/
def Numbered (s : Session σ) : Prop := ∀ m ∈ s.purchases, ∃ id, Stands s.dictionary.ids m.purchase id

namespace Numbered

theorem new (w : World) (d : Dictionary) (dir : Directory) (k : σ) :
    Numbered (.new w d dir k) := fun _ hm => absurd hm List.not_mem_nil

theorem of_adds (h : Numbered s) {new : List String} (hadds : Adds s.dictionary new t.dictionary)
    (hpurchases : t.purchases = s.purchases) : Numbered t := by
  intro m hm
  obtain ⟨id, hid⟩ := h m (hpurchases ▸ hm)
  exact ⟨id, hadds.keeps hid⟩

theorem newKeys_eq_nil (h : Numbered s) :
    newKeys s.dictionary.ids (s.purchases.map fun m => m.purchase.key) = [] := by
  rw [List.eq_nil_iff_forall_not_mem]
  intro key hkey
  obtain ⟨hmem, hnone⟩ := mem_newKeys.mp hkey
  obtain ⟨m, hm, rfl⟩ := List.mem_map.mp hmem
  obtain ⟨id, hid⟩ := h m hm
  rw [hid] at hnone
  cases hnone

/-- Purchases get their numbers when they are announced. -/
theorem expectPurchase {player : String} (ht : s.expectPurchase player = .ok t) : Numbered t := by
  have hremembers := (expectPurchase_remembers ht).1
  obtain ⟨purchases, new, d, hlegal, hd, ht⟩ := expectPurchase_eq_ok ht
  obtain ⟨given, hgiven, -⟩ := register_eq_ok_iff.mp hd
  have hadds : Adds d [] t.dictionary := by
    rw [ht]
    split
    · exact saveDictionary_adds (s.recalled player purchases d)
    · exact .refl d
  obtain rfl := Except.ok.inj (hlegal.symm.trans hremembers)
  intro m hm
  obtain ⟨id, hid⟩ := exists_number hgiven (List.mem_map_of_mem hm)
  exact ⟨id, hadds.keeps hid⟩

theorem handle (h : Numbered s) {line : Text} {r : Option Response}
    (ht : s.handle p line = .ok (r, t)) : Numbered t := by
  obtain ⟨new, hadds⟩ := handle_adds ht
  rcases handle_books ht with hsame | ⟨winner, hend⟩ | ⟨player, hahead⟩ | ⟨player, text, hmade⟩
  · exact h.of_adds hadds hsame.purchases
  · obtain ⟨episode, -, hend⟩ := bind_eq_ok_iff.mp hend
    cases hend
    exact fun m hm => absurd hm List.not_mem_nil
  · exact expectPurchase hahead
  · exact h.of_adds hadds (purchaseMade_remembers hmade).1

theorem run (h : Numbered s) {lines : List Text} {rs : List (Option Response)}
    (ht : run p lines s = .ok (rs, t)) : Numbered t := run_keeps (fun hs hu => hs.handle hu) h ht

end Numbered

/-- What is remembered of the last purchase decision can be written down: all purchases that could be
paid for then, with numbers of their own. -/
structure Resolving (home : String) (catalog : Catalog) (s : Session σ) : Prop
    extends Settled home s where
  distinct : Distinct s.dictionary.ids
  catalog_eq : s.world.catalog = catalog
  enumerated : s.purchases ≠ [] →
    catalog.Enumerated s.balanceBefore.toInt (s.purchases.map fun m => m.purchase)
  numbered : ∀ m ∈ s.purchases, ∃ id, Stands s.dictionary.ids m.purchase id

namespace Resolving

theorem start {w : World} {d : Dictionary} {dir : Directory} {k : σ}
    (hwritable : dir.writable = true) (hload : load home (dir.content? home) = .ok d)
    (hdistinct : Distinct d.ids) : Resolving home w.catalog (.new w d dir k) := by
  obtain ⟨hfiled, hclean⟩ := load_eq_ok_iff_filed.mp hload
  exact ⟨⟨hwritable, hfiled, hclean⟩, hdistinct, rfl, fun h => absurd rfl h,
    fun m hm => absurd hm List.not_mem_nil⟩

/-- A record changes nothing but the dataset, and all its numbers can be looked up. -/
theorem recordOf (h : Resolving home catalog s) {player : String} {purchase : Purchase}
    {record : PurchaseRecord} (hrecord : s.recordOf player purchase = .ok (some (record, t))) :
    t = s ∧ record.balanceBefore = s.balanceBefore ∧
      List.Forall₂ (Stands s.dictionary.ids) (s.purchases.map fun m => m.purchase)
        record.legalMoves ∧
      purchase ∈ s.purchases.map (fun m => m.purchase) ∧
      Stands s.dictionary.ids purchase record.chosenMove := by
  obtain ⟨⟨m, hm, rfl⟩, hbalance, d, d', hd, hd', rfl⟩ := recordOf_eq_some hrecord
  obtain rfl := idsFor_eq_self (Numbered.newKeys_eq_nil h.numbered) hd
  rcases idFor_cases hd' with ⟨hchosen, rfl⟩ | ⟨hnone, -⟩
  · have hsave : s.saveDictionary = s := by rw [saveDictionary, save_eq_of_clean h.clean]
    exact ⟨hsave, hbalance, by simpa [Stands] using idsFor_forall₂ hd,
      List.mem_map_of_mem hm, hchosen⟩
  · obtain ⟨id, hid⟩ := h.numbered m hm
    rw [Stands, hnone] at hid
    cases hid

theorem expectPurchase (h : Resolving home catalog s) {player : String}
    (ht : s.expectPurchase player = .ok t) (hne : t.purchases ≠ []) :
    catalog.Enumerated t.balanceBefore.toInt (t.purchases.map fun m => m.purchase) := by
  obtain ⟨hlegal, hbalance⟩ := expectPurchase_remembers ht
  rw [hbalance, ← h.catalog_eq]
  exact PurchaseMove.enumerated_of_legal hlegal hne

theorem handle (h : Resolving home catalog s) (hhome : ¬ IsTraining home) {line : Text}
    {r : Option Response} (ht : s.handle p line = .ok (r, t)) : Resolving home catalog t := by
  obtain ⟨new, hadds⟩ := handle_adds ht
  refine ⟨h.toSettled.handle hhome ht, hadds.distinct h.filed.isNext h.distinct,
    (handle_sameSetting ht).1.trans h.catalog_eq, ?_, Numbered.handle h.numbered ht⟩
  rcases handle_books ht with hsame | ⟨winner, hend⟩ | ⟨player, hahead⟩ | ⟨player, text, hmade⟩
  · rw [hsame.purchases, hsame.balanceBefore]
    exact h.enumerated
  · obtain ⟨episode, -, hend⟩ := bind_eq_ok_iff.mp hend
    cases hend
    exact fun hne => absurd rfl hne
  · exact h.expectPurchase hahead
  · obtain ⟨hpurchases, hbalance⟩ := purchaseMade_remembers hmade
    rw [hpurchases, hbalance]
    exact h.enumerated

theorem run (h : Resolving home catalog s) (hhome : ¬ IsTraining home) {lines : List Text}
    {rs : List (Option Response)} (ht : run p lines s = .ok (rs, t)) :
    Resolving home catalog t :=
  run_keeps (fun hs hu => hs.handle hhome hu) h ht

/-- A line that adds a record to a dataset reports a purchase that was expected. -/
theorem recorded (h : Resolving home catalog s) {line : Text} {r : Option Response}
    (ht : s.handle p line = .ok (r, t)) {name : String} {record : PurchaseRecord}
    (hrecord : t.directory.recordsOf name = s.directory.recordsOf name ++ [record]) :
    ∃ player purchase, s.recordOf player purchase = .ok (some (record, s)) ∧ t = s.keep record := by
  have hlonger : ¬ (t.directory.recordsOf name = s.directory.recordsOf name ∨
      t.directory.recordsOf name = []) := by
    rw [hrecord]
    simp
  rcases handle_books ht with hsame | ⟨winner, hend⟩ | ⟨player, hahead⟩ | ⟨player, text, hmade⟩
  · exact absurd (Or.inl (by rw [hsame.directory])) hlonger
  · obtain ⟨episode, -, hend⟩ := bind_eq_ok_iff.mp hend
    cases hend
    exact absurd (recordsOf_archive s.directory s.episode winner name) hlonger
  · obtain ⟨purchases, new, d, -, -, rfl⟩ := expectPurchase_eq_ok hahead
    split at hlonger
    · exact absurd (recordsOf_saveDictionary (s.recalled player purchases d) name) hlonger
    · exact absurd (Or.inl rfl) hlonger
  · rcases purchaseMade_eq_ok hmade with ⟨-, rfl⟩ | ⟨record', u, hdecision, rfl⟩
    · exact absurd (Or.inl rfl) hlonger
    · obtain ⟨purchase, -, hmade'⟩ := decision_eq_some hdecision
      obtain ⟨rfl, -⟩ := h.recordOf hmade'
      have hkept := recordsOf_append h.writable u.episode record' name
      by_cases hname : datasetName u.episode = name
      · rw [if_pos hname] at hkept
        obtain rfl : record' = record := by
          rw [keep, hkept] at hrecord
          simpa using hrecord
        exact ⟨_, purchase, hmade', rfl⟩
      · rw [if_neg hname] at hkept
        exact absurd (Or.inl hkept) hlonger

end Resolving

end Session

end Warboard
