import Warboard.Proofs.Table
import Warboard.Proofs.Training.Names

namespace Warboard

open Directory

/-- An episode that has ended, and what was recorded in it. -/
structure Chapter where
  episode : UInt32
  winner : Text
  records : List PurchaseRecord

namespace Chapter

/-- Can there be an archive of this name? -/
def Archivable (ch : Chapter) : Prop :=
  (archiveName ch.episode ch.winner).length ≤ nameLimit

instance (ch : Chapter) : Decidable ch.Archivable := inferInstanceAs (Decidable (_ ≤ _))

/-- The name of the file that keeps the records. -/
def fileName (ch : Chapter) : String :=
  if ch.Archivable then archiveName ch.episode ch.winner else datasetName ch.episode

def file (ch : Chapter) : File :=
  if ch.Archivable then .archive (datasetName ch.episode) ch.records else .dataset ch.records

/-- The file that keeps the records, if there are any. -/
def shelf (ch : Chapter) : List (String × File) :=
  if ch.records = [] then [] else [(ch.fileName, ch.file)]

theorem mem_shelf {ch : Chapter} {x : String × File} :
    x ∈ ch.shelf ↔ ch.records ≠ [] ∧ x = (ch.fileName, ch.file) := by
  rw [shelf]
  split <;> simp_all

/-- The file is one of the chapter's episode. -/
theorem fileName_cases (ch : Chapter) :
    ch.fileName = archiveName ch.episode ch.winner ∨ ch.fileName = datasetName ch.episode := by
  rw [fileName]
  split <;> simp

theorem fileName_ne_archiveName {ch : Chapter} {e : UInt32} (h : ch.episode ≠ e) (w : Text) :
    ch.fileName ≠ archiveName e w := by
  intro hn
  rcases ch.fileName_cases with hc | hc
  · exact h (archiveName_inj (hc.symm.trans hn))
  · exact datasetName_ne_archiveName _ _ _ (hc.symm.trans hn)

theorem fileName_ne_datasetName {ch : Chapter} {e : UInt32} (h : ch.episode ≠ e) :
    ch.fileName ≠ datasetName e := by
  intro hn
  rcases ch.fileName_cases with hc | hc
  · exact datasetName_ne_archiveName _ _ _ (hn.symm.trans hc)
  · exact h (datasetName_inj (hc.symm.trans hn))

end Chapter

/-- All that was recorded: the episodes that have ended, in order, and the one that goes on. -/
structure Chronicle where
  closed : List Chapter
  current : List PurchaseRecord

namespace Chronicle

def empty : Chronicle := ⟨[], []⟩

def add (c : Chronicle) (record : PurchaseRecord) : Chronicle :=
  { c with current := c.current ++ [record] }

def close (c : Chronicle) (episode : UInt32) (winner : Text) : Chronicle :=
  ⟨c.closed ++ [⟨episode, winner, c.current⟩], []⟩

/-- The files of all ended episodes. -/
def archives (c : Chronicle) : List (String × File) := c.closed.flatMap Chapter.shelf

/-- All files for training; the dataset is the one of the episode that goes on. -/
def shelf (c : Chronicle) (episode : UInt32) : List (String × File) :=
  c.archives ++ if c.current = [] then [] else [(datasetName episode, .dataset c.current)]

theorem mem_archives {c : Chronicle} {x : String × File} :
    x ∈ c.archives ↔ ∃ ch ∈ c.closed, ch.records ≠ [] ∧ x = (ch.fileName, ch.file) := by
  simp only [archives, List.mem_flatMap, Chapter.mem_shelf]

theorem mem_shelf {c : Chronicle} {episode : UInt32} {x : String × File} :
    x ∈ c.shelf episode ↔
      x ∈ c.archives ∨ c.current ≠ [] ∧ x = (datasetName episode, .dataset c.current) := by
  rw [shelf, List.mem_append]
  split <;> simp_all

theorem archives_close (c : Chronicle) (episode : UInt32) (winner : Text) :
    (c.close episode winner).archives =
      c.archives ++ Chapter.shelf ⟨episode, winner, c.current⟩ := by
  simp [archives, close]

/-- The directory holds these files for training and no others. -/
def Shelved (c : Chronicle) (episode : UInt32) (d : Directory) : Prop :=
  ∀ name : String, IsTraining name →
    ∀ file, d.files[name]? = some file ↔ (name, file) ∈ c.shelf episode

variable {c : Chronicle} {episode : UInt32} {d : Directory}

/-- No file of an ended episode takes the place of a file of this one. -/
theorem not_mem_archives (h : ∀ ch ∈ c.closed, ch.episode ≠ episode) {name : String}
    (hname : name = datasetName episode ∨ ∃ winner, name = archiveName episode winner)
    (file : File) : (name, file) ∉ c.archives := by
  rw [mem_archives]
  rintro ⟨ch, hch, -, hx⟩
  have hn : name = ch.fileName := congrArg Prod.fst hx
  rcases hname with rfl | ⟨winner, rfl⟩
  · exact Chapter.fileName_ne_datasetName (h ch hch) hn.symm
  · exact Chapter.fileName_ne_archiveName (h ch hch) winner hn.symm

theorem Shelved.dataset_eq (hs : Shelved c episode d) (h : ∀ ch ∈ c.closed, ch.episode ≠ episode) :
    d.files[datasetName episode]? =
      if c.current = [] then none else some (.dataset c.current) := by
  have hfile (file : File) := hs _ (isTraining_datasetName episode) file
  have hnot (file : File) : (datasetName episode, file) ∉ c.archives :=
    not_mem_archives h (Or.inl rfl) file
  simp only [mem_shelf, hnot, false_or, Prod.mk.injEq, true_and] at hfile
  by_cases hc : c.current = []
  · rw [if_pos hc, Option.eq_none_iff_forall_ne_some]
    exact fun file hf => ((hfile file).mp hf).1 hc
  · rw [if_neg hc]
    exact (hfile _).mpr ⟨hc, rfl⟩

theorem Shelved.recordsOf (hs : Shelved c episode d) (h : ∀ ch ∈ c.closed, ch.episode ≠ episode) :
    d.recordsOf (datasetName episode) = c.current := by
  rw [Directory.recordsOf, hs.dataset_eq h]
  by_cases hc : c.current = [] <;> simp [hc]

theorem Shelved.append (hs : Shelved c episode d) (h : ∀ ch ∈ c.closed, ch.episode ≠ episode)
    (hw : d.writable = true) (record : PurchaseRecord) :
    Shelved (c.add record) episode ((d.append episode record).getD d) := by
  have happend : (d.append episode record).getD d =
      { d with files := d.files.insert (datasetName episode)
                (.dataset (c.current ++ [record])) } := by
    simp [Directory.append, write, hw, hs.recordsOf h]
  have hne : (c.add record).current ≠ [] := by simp [add]
  have harchives : (c.add record).archives = c.archives := rfl
  intro name hname file
  rw [happend, mem_shelf, harchives, Table.getElem?_insert]
  by_cases hn : datasetName episode = name
  · subst hn
    have hnot := not_mem_archives h (Or.inl rfl) file
    rw [if_pos rfl]
    constructor
    · rintro ⟨⟩
      exact Or.inr ⟨hne, rfl⟩
    · rintro (hm | ⟨-, hx⟩)
      · exact absurd hm hnot
      · rw [(Prod.mk.inj hx).2]
        rfl
  · rw [if_neg hn, hs name hname file, mem_shelf]
    simp [Ne.symm hn]

theorem archive_eq {records : List PurchaseRecord} (hw : d.writable = true)
    (hd : d.files[datasetName episode]? = some (.dataset records)) (winner : Text) :
    (d.archive episode winner).getD d =
      if (archiveName episode winner).length ≤ nameLimit then
        { d with files := (d.files.insert (archiveName episode winner)
                  (.archive (datasetName episode) records)).erase (datasetName episode) }
      else d := by
  by_cases h : (archiveName episode winner).length ≤ nameLimit <;>
    simp [Directory.archive, hd, h, write, hw]

theorem archive_writable (d : Directory) (episode : UInt32) (winner : Text) :
    ((d.archive episode winner).getD d).writable = d.writable := by
  rw [Directory.archive]
  split
  · by_cases h : (archiveName episode winner).length ≤ nameLimit <;>
      cases hw : d.writable <;> simp [h, write, hw]
  · rfl

theorem Shelved.archive (hs : Shelved c episode d) (h : ∀ ch ∈ c.closed, ch.episode ≠ episode)
    (hw : d.writable = true) (winner : Text) (next : UInt32) :
    Shelved (c.close episode winner) next ((d.archive episode winner).getD d) := by
  have hdataset := hs.dataset_eq h
  have hcurrent : (c.close episode winner).current = [] := rfl
  intro name hname file
  rw [mem_shelf, archives_close, List.mem_append, Chapter.mem_shelf, hcurrent]
  by_cases hc : c.current = []
  · rw [if_pos hc] at hdataset
    simp only [Directory.archive, hdataset, Option.getD_some]
    rw [hs name hname file, mem_shelf]
    simp [hc]
  · rw [if_neg hc] at hdataset
    rw [archive_eq hw hdataset]
    by_cases ha : Chapter.Archivable ⟨episode, winner, c.current⟩
    · simp only [Chapter.fileName, Chapter.file, if_pos ha,
        if_pos (show (archiveName episode winner).length ≤ nameLimit from ha),
        Table.getElem?_erase, Table.getElem?_insert]
      by_cases hd : datasetName episode = name
      · subst hd
        have hnot := not_mem_archives h (Or.inl rfl) file
        simp [hnot, datasetName_ne_archiveName]
      · rw [if_neg hd]
        by_cases hn : archiveName episode winner = name
        · subst hn
          have hnot := not_mem_archives h (Or.inr ⟨winner, rfl⟩) file
          simp [hnot, hc, eq_comm]
        · rw [if_neg hn, hs name hname file, mem_shelf]
          simp [Ne.symm hn, Ne.symm hd]
    · simp only [Chapter.fileName, Chapter.file, if_neg ha,
        if_neg (show ¬ (archiveName episode winner).length ≤ nameLimit from ha)]
      rw [hs name hname file, mem_shelf]
      simp

end Chronicle

end Warboard
