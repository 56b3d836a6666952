import Mathlib.Data.List.Nodup
import Warboard.Map.Builder
import Warboard.Proofs.Session.Undisturbed

namespace Warboard

open Checked Directory

/-- What is recorded once the line is handled. -/
def Chronicle.note {σ : Type} (c : Chronicle) (s : Session σ) (line : Text) : Chronicle :=
  match Session.winnerOf line with
  | some winner => c.close s.episode winner
  | none => match s.recordFrom line with
    | some record => c.add record
    | none => c

/-- Every record is kept exactly once: those of an ended episode in its archive, those of the episode
that goes on in its dataset. Where an archive's name would be too long, the dataset stays. -/
structure Chronicle.Kept (c : Chronicle) (episode : UInt32) (d : Directory) : Prop where
  numbered : c.closed.map (fun ch => ch.episode.toNat) = List.range' 1 c.closed.length
  next : episode.toNat = c.closed.length + 1
  archived : ∀ ch ∈ c.closed, ch.records ≠ [] → ch.Archivable →
    d.files[archiveName ch.episode ch.winner]? =
        some (.archive (datasetName ch.episode) ch.records) ∧
      (∀ winner, d.files[archiveName ch.episode winner]? ≠ none →
        archiveName ch.episode winner = archiveName ch.episode ch.winner) ∧
      d.files[datasetName ch.episode]? = none
  unarchived : ∀ ch ∈ c.closed, ch.records ≠ [] → ¬ ch.Archivable →
    d.files[datasetName ch.episode]? = some (.dataset ch.records) ∧
      ∀ winner, d.files[archiveName ch.episode winner]? = none
  current : d.files[datasetName episode]? =
    if c.current = [] then none else some (.dataset c.current)
  only : ∀ name : String, IsTraining name → d.files[name]? ≠ none →
    (∃ ch ∈ c.closed, ch.records ≠ [] ∧ name = ch.fileName) ∨
      c.current ≠ [] ∧ name = datasetName episode

namespace Session

variable {σ : Type} {p : Picker σ}

/-- All that is recorded while the lines are handled one after another. -/
def chronicle (p : Picker σ) : List Text → Session σ → Chronicle → Chronicle
  | [], _, c => c
  | line :: lines, s, c => match s.handle p line with
    | .ok (_, t) => chronicle p lines t (c.note s line)
    | .error _ => c

/-- The files of the session account for all that was recorded. -/
structure Accounted (c : Chronicle) (s : Session σ) : Prop where
  apart : s.Apart
  writable : s.directory.writable = true
  numbered : c.closed.map (fun ch => ch.episode.toNat) = List.range' 1 c.closed.length
  next : s.episode.toNat = c.closed.length + 1
  shelved : c.Shelved s.episode s.directory

namespace Accounted

variable {c : Chronicle} {s t : Session σ}

/-- Nothing is recorded yet and there are no files for training. -/
theorem start {w : World} {d : Dictionary} {dir : Directory} {k : σ}
    (hwritable : dir.writable = true)
    (hfiles : ∀ name : String, IsTraining name → dir.files[name]? = none)
    (hhome : ∀ home ∈ d.home, ¬ IsTraining home) : Accounted .empty (Session.new w d dir k) := by
  refine ⟨hhome, hwritable, rfl, rfl, fun name hname file => ?_⟩
  have hnone : (Session.new w d dir k).directory.files[name]? = none := hfiles name hname
  simp [hnone, Chronicle.mem_shelf, Chronicle.archives, Chronicle.empty]

theorem episode_lt (h : Accounted c s) {ch : Chapter} (hch : ch ∈ c.closed) :
    ch.episode.toNat < s.episode.toNat := by
  have hmem : ch.episode.toNat ∈ List.range' 1 c.closed.length :=
    h.numbered ▸ List.mem_map_of_mem hch
  have hnext := h.next
  rw [List.mem_range'_1] at hmem
  omega

theorem episode_ne (h : Accounted c s) : ∀ ch ∈ c.closed, ch.episode ≠ s.episode :=
  fun _ hch he => absurd (h.episode_lt hch) (by simp [he])

theorem undisturbed (h : Accounted c s) (hst : Undisturbed s t) : Accounted c t where
  apart := hst.apart h.apart
  writable := hst.writable.trans h.writable
  numbered := h.numbered
  next := hst.episode ▸ h.next
  shelved := fun name hname file => by
    rw [hst.files name hname, hst.episode]
    exact h.shelved name hname file

theorem keep (h : Accounted c s) (record : PurchaseRecord) :
    Accounted (c.add record) (s.keep record) where
  apart := h.apart
  writable := by
    simp [Session.keep, Directory.append, Directory.write, h.writable]
  numbered := h.numbered
  next := h.next
  shelved := h.shelved.append h.episode_ne h.writable record

theorem endEpisode (h : Accounted c s) {winner : Text} (ht : s.endEpisode winner = .ok t) :
    Accounted (c.close s.episode winner) t := by
  obtain ⟨episode, he, ht⟩ := bind_eq_ok_iff.mp ht
  cases ht
  have hnext : episode.toNat = s.episode.toNat + 1 := addQuantity_eq_ok_iff.mp he
  refine ⟨h.apart, ?_, ?_, ?_, h.shelved.archive h.episode_ne h.writable winner episode⟩
  · exact (Chronicle.archive_writable s.directory s.episode winner).trans h.writable
  · have hepisode : s.episode.toNat = 1 + 1 * c.closed.length := by
      have := h.next
      omega
    simp only [Chronicle.close, List.map_append, List.map_singleton, List.length_append,
      List.length_singleton, List.range'_concat, h.numbered, hepisode]
  · simp [Chronicle.close, hnext, h.next]

theorem handle {line : Text} {r : Option Response} (h : Accounted c s)
    (ht : s.handle p line = .ok (r, t)) : Accounted (c.note s line) t := by
  rw [Chronicle.note]
  rcases handle_cases h.apart ht with ⟨winner, hw, hend⟩ | ⟨record, u, hw, hr, hsu, rfl⟩ |
    ⟨hw, hr, hst⟩
  · rw [hw]
    exact h.endEpisode hend
  · rw [hw, hr]
    exact (h.undisturbed hsu).keep record
  · rw [hw, hr]
    exact h.undisturbed hst

theorem run {lines : List Text} {rs : List (Option Response)} (h : Accounted c s)
    (ht : run p lines s = .ok (rs, t)) : Accounted (chronicle p lines s c) t := by
  induction lines generalizing s c rs with
  | nil => cases ht; exact h
  | cons line lines ih =>
      rw [run_cons, bind_eq_ok_iff] at ht
      obtain ⟨⟨r, u⟩, hu, ht⟩ := ht
      obtain ⟨⟨rs', t'⟩, hrun, ht⟩ := bind_eq_ok_iff.mp ht
      cases ht
      rw [chronicle, hu]
      exact ih (h.handle hu) hrun

theorem found (h : Accounted c s) {name : String} (hname : IsTraining name)
    (hfile : s.directory.files[name]? ≠ none) :
    (∃ ch ∈ c.closed, ch.records ≠ [] ∧ name = ch.fileName) ∨
      c.current ≠ [] ∧ name = datasetName s.episode := by
  obtain ⟨file, hfile⟩ := Option.ne_none_iff_exists'.mp hfile
  rcases Chronicle.mem_shelf.mp ((h.shelved name hname file).mp hfile) with hx | ⟨hne, hx⟩
  · obtain ⟨ch, hch, hne, hx⟩ := Chronicle.mem_archives.mp hx
    exact Or.inl ⟨ch, hch, hne, (Prod.mk.inj hx).1⟩
  · exact Or.inr ⟨hne, (Prod.mk.inj hx).1⟩

theorem chapter_eq (h : Accounted c s) {ch ch' : Chapter} (hch : ch ∈ c.closed)
    (hch' : ch' ∈ c.closed) (he : ch.episode = ch'.episode) : ch = ch' := by
  have hnodup : (c.closed.map fun ch => ch.episode.toNat).Nodup := by
    rw [h.numbered]
    exact List.nodup_range'
  exact List.inj_on_of_nodup_map hnodup hch hch' (by rw [he])

/-- An ended episode has no file but the one that keeps its records. -/
theorem found_of_chapter (h : Accounted c s) {ch : Chapter} (hch : ch ∈ c.closed) {name : String}
    (hname : name = datasetName ch.episode ∨ ∃ winner, name = archiveName ch.episode winner)
    (hfile : s.directory.files[name]? ≠ none) : name = ch.fileName := by
  have htraining : IsTraining name := by
    rcases hname with rfl | ⟨winner, rfl⟩
    · exact isTraining_datasetName ch.episode
    · exact isTraining_archiveName ch.episode winner
  rcases h.found htraining hfile with ⟨ch', hch', -, rfl⟩ | ⟨-, rfl⟩
  · have he : ch'.episode = ch.episode := by
      by_contra hne
      rcases hname with hn | ⟨winner, hn⟩
      · exact Chapter.fileName_ne_datasetName hne hn
      · exact Chapter.fileName_ne_archiveName hne winner hn
    rw [h.chapter_eq hch' hch he]
  · rcases hname with hn | ⟨winner, hn⟩
    · exact absurd (datasetName_inj hn).symm (h.episode_ne ch hch)
    · exact absurd hn (datasetName_ne_archiveName _ _ _)

theorem file_of_chapter (h : Accounted c s) {ch : Chapter} (hch : ch ∈ c.closed)
    (hne : ch.records ≠ []) : s.directory.files[ch.fileName]? = some ch.file := by
  have htraining : IsTraining ch.fileName := by
    rcases ch.fileName_cases with hn | hn <;> rw [hn]
    · exact isTraining_archiveName ch.episode ch.winner
    · exact isTraining_datasetName ch.episode
  rw [h.shelved _ htraining, Chronicle.mem_shelf, Chronicle.mem_archives]
  exact Or.inl ⟨ch, hch, hne, rfl⟩

/-- The files for training, one by one. -/
theorem kept (h : Accounted c s) : c.Kept s.episode s.directory where
  numbered := h.numbered
  next := h.next
  archived := fun ch hch hne ha => by
    have hname : ch.fileName = archiveName ch.episode ch.winner := if_pos ha
    have hfile := h.file_of_chapter hch hne
    rw [hname, Chapter.file, if_pos ha] at hfile
    refine ⟨hfile, fun winner hw => ?_, ?_⟩
    · rw [← hname]
      exact h.found_of_chapter hch (Or.inr ⟨winner, rfl⟩) hw
    · by_contra hd
      have hn := h.found_of_chapter hch (Or.inl rfl) hd
      exact datasetName_ne_archiveName _ _ _ (hn.trans hname)
  unarchived := fun ch hch hne ha => by
    have hname : ch.fileName = datasetName ch.episode := if_neg ha
    have hfile := h.file_of_chapter hch hne
    rw [hname, Chapter.file, if_neg ha] at hfile
    refine ⟨hfile, fun winner => ?_⟩
    by_contra hw
    have hn := h.found_of_chapter hch (Or.inr ⟨winner, rfl⟩) hw
    exact datasetName_ne_archiveName _ _ _ (hname.symm.trans hn.symm)
  current := h.shelved.dataset_eq h.episode_ne
  only := fun _ hname hfile => h.found hname hfile

end Accounted

/-- Every record that a session makes is kept exactly once, whatever the engine sends. -/
theorem run_keeps_records {w : World} {d : Dictionary} {dir : Directory} {k : σ}
    (hwritable : dir.writable = true)
    (hfiles : ∀ name : String, IsTraining name → dir.files[name]? = none)
    (hhome : ∀ home ∈ d.home, ¬ IsTraining home) {lines : List Text}
    {rs : List (Option Response)} {t : Session σ}
    (h : run p lines (.new w d dir k) = .ok (rs, t)) :
    (chronicle p lines (.new w d dir k) .empty).Kept t.episode t.directory :=
  ((Accounted.start hwritable hfiles hhome).run h).kept

def armory : MapRecord :=
  MapRecord.empty
    |>.addTerritory "Ural" "Red"
    |>.addPlayer "Red" 4
    |>.addUnit "infantry" 1 2 1
    |>.addCost "infantry" 3
    |>.placeFactory "Ural" "Red"

def buying : Text := "[FOR_DB] purchase Red".toList

def bought : Text := "[FOR_DB] chosen Red::ProductionRule:buyInfantry -> 1".toList

def wonBy (winner : Text) : Text :=
  "[INFO] Game stopped [PlayerId named: ".toList ++ (winner ++ "]".toList)

def notes : Dictionary := ⟨some "move_dict.json", ∅, 0, false⟩

theorem empty_no_training (name : String) (_ : IsTraining name) :
    Directory.empty.files[name]? = none := by
  simp [Directory.empty]

theorem notes_apart : ∀ home ∈ notes.home, ¬ IsTraining home := by
  rintro home ⟨⟩ h
  exact absurd h.head? (by decide)

/-- One record, a winner whose name does not do for a file, and two records of the next game. -/
def season : List Text := [buying, bought, wonBy "R.ed".toList, buying, bought, bought]

theorem run_keeps_records_season :
    (Directory.empty.writable = true ∧
      (∀ name : String, IsTraining name → Directory.empty.files[name]? = none) ∧
      ∀ home ∈ notes.home, ¬ IsTraining home) ∧
    ∃ w rs t, World.ofRecord armory = .ok w ∧
      run .random season (.new w notes .empty 0) = .ok (rs, t) ∧
      (let c := chronicle .random season (.new w notes .empty 0) .empty
      (c.closed.map (fun ch => ch.records.length), c.current.length)) = ([1], 2) ∧
      (chronicle .random season (.new w notes .empty 0) .empty).Kept t.episode t.directory := by
  obtain ⟨w, rs, t, hw, hrun, hlengths⟩ := exists_run .random armory season notes 0
    (fun s _ => let c := chronicle .random season s .empty
      (c.closed.map (fun ch => ch.records.length), c.current.length)) ([1], 2) (by decide +kernel)
  exact ⟨⟨rfl, empty_no_training, notes_apart⟩, w, rs, t, hw, hrun, hlengths,
    run_keeps_records rfl empty_no_training notes_apart hrun⟩

/-- A winner with a name so long that no file can have it in its own. -/
def legion : Text := List.replicate 229 'a'

theorem not_archivable_legion {ch : Chapter} (h : ch.winner = legion) : ¬ ch.Archivable := by
  have hdigits : 0 < (Text.digits ch.episode.toNat).length :=
    List.length_pos_iff.mpr (Text.digits_ne_nil _)
  have hlegion : legion.length = 229 := List.length_replicate
  have hrest : "purchase".length + "winner".length + "_dataset.zip".length = 26 := by decide
  simp [Chapter.Archivable, archiveName, fileSafe, h, hlegion, nameLimit]
  omega

/-- Neither of the two conditions can be left out: the records of a game that such a winner has won
are not archived, and a dictionary under the name of a dataset is found in its place. -/
theorem not_archived_legion :
    (∃ w rs t, World.ofRecord armory = .ok w ∧
      run .random [buying, bought, wonBy legion] (.new w notes .empty 0) = .ok (rs, t) ∧
      ∃ ch ∈ (chronicle .random [buying, bought, wonBy legion] (.new w notes .empty 0)
          .empty).closed,
        ch.records ≠ [] ∧ t.directory.files[archiveName ch.episode ch.winner]? = none ∧
          t.directory.files[datasetName ch.episode]? ≠ none) ∧
    ∃ w rs t, World.ofRecord armory = .ok w ∧
      run .random [buying] (.new w { notes with home := some (datasetName 1) } .empty 0) =
        .ok (rs, t) ∧
      (chronicle .random [buying] (.new w { notes with home := some (datasetName 1) } .empty 0)
        .empty).current = [] ∧
      t.directory.files[datasetName t.episode]? ≠ none := by
  constructor
  · obtain ⟨w, rs, t, hw, hrun, h⟩ :=
      exists_run .random armory [buying, bought, wonBy legion] notes 0
        (fun s _ => (chronicle .random [buying, bought, wonBy legion] s .empty).closed.map
          fun ch => (ch.winner, ch.records.length)) [(legion, 1)] (by decide +kernel)
    obtain ⟨ch, hclosed, hch⟩ := List.map_eq_singleton_iff.mp h
    obtain ⟨hwinner, hlength⟩ := Prod.mk.inj hch
    have hmem := hclosed ▸ List.mem_singleton_self ch
    have hne : ch.records ≠ [] := List.ne_nil_of_length_pos (by omega)
    have hkept := ((Accounted.start rfl empty_no_training notes_apart).run hrun).kept
    obtain ⟨hdataset, harchive⟩ := hkept.unarchived ch hmem hne (not_archivable_legion hwinner)
    exact ⟨w, rs, t, hw, hrun, ch, hmem, hne, harchive ch.winner, by simp [hdataset]⟩
  · obtain ⟨w, rs, t, hw, hrun, h⟩ :=
      exists_run .random armory [buying] { notes with home := some (datasetName 1) } 0
        (fun s t => decide ((chronicle .random [buying] s .empty).current = [] ∧
          t.directory.files[datasetName t.episode]? ≠ none)) true (by decide +kernel)
    exact ⟨w, rs, t, hw, hrun, of_decide_eq_true h⟩

end Session

end Warboard
