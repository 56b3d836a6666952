import Mathlib.Algebra.Order.Group.Multiset
import Warboard.Proofs.Training.Chronicle

namespace Warboard

open Directory

/-- The records that the file holds, packed or not. -/
def File.records : File → List PurchaseRecord
  | .octets _ => []
  | .dataset records => records
  | .archive _ records => records

/-- The records of all files. -/
def allRecords (files : Table File) : Multiset PurchaseRecord :=
  (files.toList.flatMap fun e => e.2.records : List PurchaseRecord)

def Directory.recordsIn (d : Directory) (name : String) : List PurchaseRecord :=
  (d.files[name]?).elim [] File.records

theorem allRecords_erase (d : Directory) (name : String) :
    allRecords (d.files.erase name) + (d.recordsIn name : Multiset PurchaseRecord) =
      allRecords d.files := by
  rw [recordsIn]
  cases h : d.files[name]? with
  | none => rw [Table.erase_of_none h, Option.elim_none, Multiset.coe_nil, add_zero]
  | some file =>
      rw [Option.elim_some, add_comm, allRecords, allRecords, Multiset.coe_add,
        Multiset.coe_eq_coe]
      exact ((Table.toList_perm_erase h).flatMap_right fun e => e.2.records).symm

theorem allRecords_insert (d : Directory) (name : String) (file : File) :
    allRecords (d.files.insert name file) + (d.recordsIn name : Multiset PurchaseRecord) =
      allRecords d.files + (file.records : Multiset PurchaseRecord) := by
  have hinsert := allRecords_erase { d with files := d.files.insert name file } name
  have herase := allRecords_erase d name
  rw [recordsIn, Table.getElem?_insert, if_pos rfl, Option.elim_some, Table.erase_insert] at hinsert
  rw [← hinsert, ← herase, add_right_comm]

theorem allRecords_congr {files files' : Table File}
    (h : ∀ (name : String) (file : File), file.records ≠ [] →
      (files[name]? = some file ↔ files'[name]? = some file)) :
    allRecords files = allRecords files' := by
  have hfilter (t : Table File) : t.toList.flatMap (fun e => e.2.records) =
      (t.toList.filter fun e => !e.2.records.isEmpty).flatMap fun e => e.2.records := by
    induction t.toList with
    | nil => rfl
    | cons e es ih =>
        rw [List.flatMap_cons, List.filter_cons, ih]
        cases he : e.2.records <;> simp [he]
  rw [allRecords, allRecords, Multiset.coe_eq_coe, hfilter, hfilter files']
  apply List.Perm.flatMap_right
  rw [List.perm_ext_iff_of_nodup (files.toList_nodup.filter _) (files'.toList_nodup.filter _)]
  rintro ⟨name, file⟩
  simp only [List.mem_filter, Std.ExtTreeMap.mem_toList_iff_getElem?_eq_some, and_congr_left_iff]
  intro hfile
  exact h name file (by simpa using hfile)

namespace Directory

variable {d : Directory} {episode : UInt32} {winner : Text} {records : List PurchaseRecord}

/-- Datasets and archives hold records, and no other files do. -/
structure Tidy (d : Directory) : Prop where
  writable : d.writable = true
  dataset : ∀ (episode : UInt32), ∀ file ∈ d.files[datasetName episode]?,
    ∃ records, file = .dataset records ∧ records ≠ []
  archive : ∀ (episode : UInt32) (winner : Text), ∀ file ∈ d.files[archiveName episode winner]?,
    file.records ≠ []
  training : ∀ (name : String), ∀ file ∈ d.files[name]?, file.records ≠ [] → IsTraining name

theorem Tidy.recordsIn_datasetName (hd : d.Tidy) (episode : UInt32) :
    d.recordsIn (datasetName episode) = d.recordsOf (datasetName episode) := by
  rw [recordsIn, recordsOf]
  cases h : d.files[datasetName episode]? with
  | none => rfl
  | some file =>
      obtain ⟨records, rfl, -⟩ := hd.dataset episode file h
      rfl

theorem Tidy.recordsIn_archiveName_eq_nil_iff (hd : d.Tidy) :
    d.recordsIn (archiveName episode winner) = [] ↔
      d.files[archiveName episode winner]? = none := by
  rw [recordsIn]
  cases h : d.files[archiveName episode winner]? with
  | none => simp
  | some file => simpa using hd.archive episode winner file h

theorem Tidy.insert_dataset (hd : d.Tidy) (hrecords : records ≠ []) :
    Tidy { d with files := d.files.insert (datasetName episode) (.dataset records) } := by
  refine ⟨hd.writable, fun e file => ?_, fun e w file => ?_, fun name file => ?_⟩ <;>
    rw [Table.getElem?_insert]
  · split
    · rintro ⟨rfl⟩
      exact ⟨records, rfl, hrecords⟩
    · exact hd.dataset e file
  · rw [if_neg (datasetName_ne_archiveName episode e w)]
    exact hd.archive e w file
  · split
    · rintro - -
      exact ‹datasetName episode = name› ▸ isTraining_datasetName episode
    · exact hd.training name file

def packed (d : Directory) (episode : UInt32) (winner : Text) (records : List PurchaseRecord) :
    Directory :=
  { d with files := (d.files.insert (archiveName episode winner)
            (.archive (datasetName episode) records)).erase (datasetName episode) }

theorem packed_getElem? (name : String) : (packed d episode winner records).files[name]? =
    if datasetName episode = name then none
    else if archiveName episode winner = name then
      some (.archive (datasetName episode) records)
    else d.files[name]? := by
  rw [packed, Table.getElem?_erase, Table.getElem?_insert]

theorem Tidy.packed (hd : d.Tidy) (hrecords : records ≠ []) :
    (packed d episode winner records).Tidy := by
  refine ⟨hd.writable, fun e file => ?_, fun e w file => ?_, fun name file => ?_⟩ <;>
    rw [packed_getElem?]
  · rw [if_neg (datasetName_ne_archiveName e episode winner).symm]
    split
    · rintro ⟨⟩
    · exact hd.dataset e file
  · rw [if_neg (datasetName_ne_archiveName episode e w)]
    split
    · rintro ⟨rfl⟩
      exact hrecords
    · exact hd.archive e w file
  · split
    · rintro ⟨⟩
    · split
      · rintro - -
        exact ‹archiveName episode winner = name› ▸ isTraining_archiveName episode winner
      · exact hd.training name file

theorem packed_conserved (hdataset : d.files[datasetName episode]? = some (.dataset records)) :
    allRecords (packed d episode winner records).files +
        (d.recordsIn (archiveName episode winner) : Multiset PurchaseRecord) =
      allRecords d.files := by
  have hinsert := allRecords_insert d (archiveName episode winner)
    (.archive (datasetName episode) records)
  have herase := allRecords_erase { d with files := d.files.insert (archiveName episode winner)
                                            (.archive (datasetName episode) records) }
    (datasetName episode)
  rw [recordsIn, Table.getElem?_insert, if_neg (datasetName_ne_archiveName _ _ _).symm, hdataset,
    Option.elim_some] at herase
  rw [← herase, add_right_comm] at hinsert
  exact add_right_cancel hinsert

end Directory

/-- What happens to the files for training: records are added, archives are made, and the records of
archives that others take the place of are lost. -/
structure Filing where
  added : List PurchaseRecord
  archives : List String
  lost : List PurchaseRecord

namespace Filing

def none : Filing := ⟨[], [], []⟩

def andThen (f g : Filing) : Filing :=
  ⟨f.added ++ g.added, f.archives ++ g.archives, f.lost ++ g.lost⟩

/-- What the end of an episode does to the files for training. -/
def ofArchive (d : Directory) (episode : UInt32) (winner : Text) : Filing :=
  let target := archiveName episode winner
  if d.recordsOf (datasetName episode) ≠ [] ∧ target.length ≤ nameLimit then
    ⟨[], [target], d.recordsIn target⟩
  else .none

/-- The second directory is what the first has become by that. -/
structure Explains (f : Filing) (d d' : Directory) : Prop where
  tidy : d'.Tidy
  conserved : allRecords d'.files + (f.lost : Multiset PurchaseRecord) =
    allRecords d.files + (f.added : Multiset PurchaseRecord)
  archived : ∀ name ∈ f.archives, ∃ episode winner, name = archiveName episode winner
  present : ∀ (episode : UInt32) (winner : Text), d'.files[archiveName episode winner]? ≠ .none ↔
    d.files[archiveName episode winner]? ≠ .none ∨ archiveName episode winner ∈ f.archives
  lost_iff : f.lost = [] ↔ f.archives.Nodup ∧ ∀ name ∈ f.archives, d.files[name]? = .none

namespace Explains

variable {f g : Filing} {d d' d'' : Directory}

/-- The names that the second account finds free are those that were free before the first, without
those of the archives made in it. -/
theorem free_iff (h : Explains f d d') {name : String}
    (hname : ∃ episode winner, name = archiveName episode winner) :
    d'.files[name]? = .none ↔ d.files[name]? = .none ∧ name ∉ f.archives := by
  obtain ⟨episode, winner, rfl⟩ := hname
  rw [← not_iff_not, ← ne_eq, h.present, not_and_or, not_not]

theorem trans (h : Explains f d d') (h' : Explains g d' d'') : Explains (f.andThen g) d d'' where
  tidy := h'.tidy
  conserved := by
    simp only [andThen, ← Multiset.coe_add]
    calc allRecords d''.files + (f.lost + g.lost)
      _ = allRecords d''.files + g.lost + f.lost := by
          rw [add_assoc, add_comm (f.lost : Multiset PurchaseRecord)]
      _ = allRecords d'.files + f.lost + g.added := by rw [h'.conserved, add_right_comm]
      _ = allRecords d.files + (f.added + g.added) := by rw [h.conserved, add_assoc]
  archived := by
    simp only [andThen, List.mem_append]
    rintro name (hname | hname)
    · exact h.archived name hname
    · exact h'.archived name hname
  present := fun episode winner => by
    rw [h'.present, h.present, andThen, List.mem_append, or_assoc]
  lost_iff := by
    have hfree : (∀ name ∈ g.archives, d'.files[name]? = .none) ↔
        ∀ name ∈ g.archives, d.files[name]? = .none ∧ name ∉ f.archives :=
      forall₂_congr fun name hname => h.free_iff (h'.archived name hname)
    simp only [andThen, List.append_eq_nil_iff, h.lost_iff, h'.lost_iff, hfree, List.nodup_append,
      List.forall_mem_append]
    constructor
    · rintro ⟨⟨hf, hdf⟩, hg, hdg⟩
      exact ⟨⟨hf, hg, fun a ha b hb hab => (hdg b hb).2 (hab ▸ ha)⟩, hdf,
        fun name hname => (hdg name hname).1⟩
    · rintro ⟨⟨hf, hg, hfg⟩, hdf, hdg⟩
      exact ⟨⟨hf, hdf⟩, hg, fun name hname =>
        ⟨hdg name hname, fun hmem => hfg name hmem name hname rfl⟩⟩

/-- Nothing happens if no file for training changes and no other comes to hold records. -/
theorem of_same (hd : d.Tidy) (hwritable : d'.writable = d.writable)
    (htraining : ∀ name : String, IsTraining name → d'.files[name]? = d.files[name]?)
    (hother : ∀ name : String, ¬ IsTraining name → ∀ file ∈ d'.files[name]?, file.records = []) :
    Explains .none d d' where
  tidy := by
    refine ⟨hwritable.trans hd.writable, fun episode => ?_, fun episode winner => ?_, ?_⟩
    · rw [htraining _ (isTraining_datasetName episode)]
      exact hd.dataset episode
    · rw [htraining _ (isTraining_archiveName episode winner)]
      exact hd.archive episode winner
    · intro name file hfile hrecords
      by_contra hname
      exact hrecords (hother name hname file hfile)
  conserved := by
    refine congrArg (· + 0) (allRecords_congr fun name file hrecords => ?_)
    by_cases hname : IsTraining name
    · rw [htraining name hname]
    · exact ⟨fun h => absurd (hother name hname file h) hrecords,
        fun h => absurd (hd.training name file h hrecords) hname⟩
  archived := by simp [Filing.none]
  present := fun episode winner => by
    simp [Filing.none, htraining _ (isTraining_archiveName episode winner)]
  lost_iff := by simp [Filing.none]

theorem append (hd : d.Tidy) (episode : UInt32) (record : PurchaseRecord) :
    Explains ⟨[record], [], []⟩ d ((d.append episode record).getD d) := by
  set records := d.recordsOf (datasetName episode)
  have happend : (d.append episode record).getD d =
      { d with files := d.files.insert (datasetName episode) (.dataset (records ++ [record])) } := by
    simp [Directory.append, write, hd.writable, records]
  rw [happend]
  refine ⟨hd.insert_dataset (by simp), ?_, by simp, ?_, by simp⟩
  · have h := allRecords_insert d (datasetName episode) (.dataset (records ++ [record]))
    rw [hd.recordsIn_datasetName, File.records, ← Multiset.coe_add, add_left_comm, add_comm] at h
    simpa using add_left_cancel h
  · intro e w
    simp [Table.getElem?_insert, datasetName_ne_archiveName]

theorem refl (hd : d.Tidy) : Explains .none d d :=
  of_same hd rfl (fun _ _ => rfl) fun name hname file hfile => by
    by_contra hrecords
    exact hname (hd.training name file hfile hrecords)

theorem archive (hd : d.Tidy) (episode : UInt32) (winner : Text) :
    Explains (ofArchive d episode winner) d ((d.archive episode winner).getD d) := by
  rw [ofArchive]
  cases hdataset : d.files[datasetName episode]? with
  | none =>
      have hrecords : d.recordsOf (datasetName episode) = [] := by rw [recordsOf, hdataset]
      have hsame : d.archive episode winner = some d := by rw [Directory.archive, hdataset]
      rw [hrecords, hsame, if_neg (by simp)]
      exact refl hd
  | some file =>
      obtain ⟨records, rfl, hne⟩ := hd.dataset episode file hdataset
      have hrecords : d.recordsOf (datasetName episode) = records := by rw [recordsOf, hdataset]
      rw [Chronicle.archive_eq hd.writable hdataset, hrecords]
      by_cases hlength : (archiveName episode winner).length ≤ nameLimit
      · rw [if_pos hlength, if_pos ⟨hne, hlength⟩]
        refine ⟨hd.packed hne, ?_, by simp, fun e w => ?_, ?_⟩
        · exact (packed_conserved hdataset).trans (add_zero _).symm
        · rw [← packed, packed_getElem?, if_neg (datasetName_ne_archiveName _ _ _)]
          by_cases htarget : archiveName episode winner = archiveName e w
          · simp [htarget]
          · simp [htarget, Ne.symm htarget]
        · simp [hd.recordsIn_archiveName_eq_nil_iff]
      · rw [if_neg hlength, if_neg (by simp [hlength])]
        exact refl hd

end Explains

end Filing

end Warboard
