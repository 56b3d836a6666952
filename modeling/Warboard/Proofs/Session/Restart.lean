import Warboard.Proofs.Dictionary.File
import Warboard.Proofs.Session.Books
import Warboard.Proofs.Session.Keeping

namespace Warboard

open Checked Directory

/-- Archiving writes the archive and takes the dataset away, if there is one. -/
theorem Directory.archive_eq_some {dir dir' : Directory} {episode : UInt32} {winner : Text}
    (h : dir.archive episode winner = some dir') : dir' = dir ∨ ∃ records packed,
      dir.write (archiveName episode winner) (.archive (datasetName episode) records) =
          some packed ∧
        dir' = { packed with files := packed.files.erase (datasetName episode) } := by
  rw [archive] at h
  split at h
  · split at h
    · obtain ⟨packed, hwrite, h⟩ := Option.bind_eq_some_iff.mp h
      cases h
      exact Or.inr ⟨_, packed, hwrite, rfl⟩
    · cases h
  · cases h
    exact Or.inl rfl

/-- The two directories agree on one file, and on whether it can be written. -/
structure Directory.AgreeOn (name : String) (dir dir' : Directory) : Prop where
  writable : dir'.writable = dir.writable
  file : dir'.files[name]? = dir.files[name]?

namespace Directory.AgreeOn

variable {home : String} {dir dir' dir'' : Directory}

theorem refl (dir : Directory) : AgreeOn home dir dir := ⟨rfl, rfl⟩

theorem trans (h : AgreeOn home dir dir') (h' : AgreeOn home dir' dir'') : AgreeOn home dir dir'' :=
  ⟨h'.writable.trans h.writable, h'.file.trans h.file⟩

theorem content? (h : AgreeOn home dir dir') : dir'.content? home = dir.content? home := by
  rw [Directory.content?, Directory.content?, h.file]

theorem write {name : String} {file : File} (hne : name ≠ home)
    (h : dir.write name file = some dir') : AgreeOn home dir dir' := by
  rw [Directory.write] at h
  split at h
  · cases h
    exact ⟨rfl, (Table.getElem?_insert ..).trans (if_neg hne)⟩
  · cases h

theorem append_of_ne {episode : UInt32} {record : PurchaseRecord}
    (hdataset : datasetName episode ≠ home) :
    AgreeOn home dir ((dir.append episode record).getD dir) := by
  cases h : dir.append episode record with
  | none => exact .refl dir
  | some dir' => exact .write hdataset h

theorem append {episode : UInt32} {record : PurchaseRecord} (hhome : ¬ IsTraining home) :
    AgreeOn home dir ((dir.append episode record).getD dir) :=
  append_of_ne fun he => hhome (he ▸ isTraining_datasetName episode)

theorem archive_of_ne {episode : UInt32} {winner : Text} (hdataset : datasetName episode ≠ home)
    (harchive : archiveName episode winner ≠ home) :
    AgreeOn home dir ((dir.archive episode winner).getD dir) := by
  cases h : dir.archive episode winner with
  | none => exact .refl dir
  | some dir' =>
      rcases archive_eq_some h with rfl | ⟨records, packed, hwrite, rfl⟩
      · exact .refl dir'
      · have hagree := AgreeOn.write harchive hwrite
        exact ⟨hagree.writable,
          ((Table.getElem?_erase ..).trans (if_neg hdataset)).trans hagree.file⟩

theorem archive {episode : UInt32} {winner : Text} (hhome : ¬ IsTraining home) :
    AgreeOn home dir ((dir.archive episode winner).getD dir) :=
  archive_of_ne (fun he => hhome (he ▸ isTraining_datasetName episode))
    fun he => hhome (he ▸ isTraining_archiveName episode winner)

end Directory.AgreeOn

namespace Session

open Dictionary

variable {σ : Type} {p : Picker σ} {home : String} {s t : Session σ}

/-- The dictionary is in its file, with all that has been added to it. -/
structure Settled (home : String) (s : Session σ) : Prop where
  writable : s.directory.writable = true
  filed : Filed home s.dictionary s.directory
  clean : s.dictionary.dirty = false

namespace Settled

theorem reload (h : Settled home s) :
    load home (s.directory.content? home) = .ok s.dictionary :=
  load_eq_ok_iff_filed.mpr ⟨h.filed, h.clean⟩

theorem of_agree (h : Settled home s) (hdictionary : t.dictionary = s.dictionary)
    (hdirectory : AgreeOn home s.directory t.directory) : Settled home t where
  writable := hdirectory.writable.trans h.writable
  filed := by
    rw [hdictionary]
    refine ⟨h.filed.home_eq, h.filed.isNext, fun hclean => ?_⟩
    rw [hdirectory.content?]
    exact h.filed.content_eq hclean
  clean := hdictionary ▸ h.clean

/-- Whatever was added to the dictionary, it is in the file once that is written. -/
theorem saveDictionary (hwritable : s.directory.writable = true)
    (h : Filed home s.dictionary s.directory) : Settled home s.saveDictionary := by
  obtain ⟨d, dir, hsave, hdir⟩ := h.exists_save hwritable
  obtain ⟨hfiled, hclean⟩ := h.save hsave
  rw [Session.saveDictionary, hsave]
  exact ⟨hdir, hfiled, hclean⟩

theorem expectPurchase (h : Settled home s) {player : String} (ht : s.expectPurchase player = .ok t) :
    Settled home t := by
  obtain ⟨purchases, new, d, -, hd, rfl⟩ := expectPurchase_eq_ok ht
  obtain ⟨given, hgiven, rfl⟩ := register_eq_ok_iff.mp hd
  have hfiled := h.filed.idsFor hgiven
  split
  · exact .saveDictionary h.writable hfiled
  · -- without a new purchase the dictionary is not written, but then it is the same
    rename_i hnew
    have hsame : d = s.dictionary := idsFor_eq_self (by simpa using hnew) hgiven
    exact h.of_agree hsame (.refl _)

theorem recordOf (h : Settled home s) {player : String} {purchase : Purchase}
    {record : PurchaseRecord} (ht : s.recordOf player purchase = .ok (some (record, t))) :
    Settled home t := by
  obtain ⟨-, -, d, d', hd, hd', rfl⟩ := recordOf_eq_some ht
  exact .saveDictionary h.writable ((h.filed.idsFor hd).idsFor (idsFor_singleton hd'))

theorem handle (h : Settled home s) (hhome : ¬ IsTraining home) {line : Text}
    {r : Option Response} (ht : s.handle p line = .ok (r, t)) : Settled home t := by
  rcases handle_books ht with hsame | ⟨winner, hend⟩ | ⟨player, hahead⟩ | ⟨player, text, hmade⟩
  · exact h.of_agree hsame.dictionary (hsame.directory ▸ .refl _)
  · obtain ⟨episode, -, hend⟩ := bind_eq_ok_iff.mp hend
    cases hend
    exact h.of_agree rfl (.archive hhome)
  · exact h.expectPurchase hahead
  · rcases purchaseMade_eq_ok hmade with ⟨-, rfl⟩ | ⟨record, u, hdecision, rfl⟩
    · exact h
    · obtain ⟨purchase, -, hrecord⟩ := decision_eq_some hdecision
      exact (h.recordOf hrecord).of_agree rfl (.append hhome)

theorem run (h : Settled home s) (hhome : ¬ IsTraining home) {lines : List Text}
    {rs : List (Option Response)} (ht : run p lines s = .ok (rs, t)) : Settled home t :=
  run_keeps (fun hs hu => hs.handle hhome hu) h ht

end Settled

end Session

end Warboard
