import Warboard.Proofs.Dictionary.Numbering
import Warboard.Proofs.Session.Books
import Warboard.Proofs.Session.Run
import Warboard.Proofs.Training.Chronicle

namespace Warboard

open Checked

namespace Session

open Directory

variable {σ : Type} {p : Picker σ}

/-- The dictionary is not kept under a name that a dataset or an archive could have. -/
def Apart (s : Session σ) : Prop := ∀ home ∈ s.dictionary.home, ¬ IsTraining home

/-- The files for training are the same, and so is all that the next of them depends on. -/
structure Undisturbed (s t : Session σ) : Prop where
  episode : t.episode = s.episode
  home : t.dictionary.home = s.dictionary.home
  writable : t.directory.writable = s.directory.writable
  files : ∀ name : String, IsTraining name → t.directory.files[name]? = s.directory.files[name]?

namespace Undisturbed

theorem refl (s : Session σ) : Undisturbed s s := ⟨rfl, rfl, rfl, fun _ _ => rfl⟩

theorem trans {s t u : Session σ} (h : Undisturbed s t) (h' : Undisturbed t u) : Undisturbed s u :=
  ⟨h'.episode.trans h.episode, h'.home.trans h.home, h'.writable.trans h.writable,
    fun name hname => (h'.files name hname).trans (h.files name hname)⟩

theorem of_sameBooks {s t : Session σ} (h : SameBooks s t) : Undisturbed s t where
  episode := h.episode
  home := congrArg Dictionary.home h.dictionary
  writable := congrArg Directory.writable h.directory
  files := fun _ _ => by rw [h.directory]

theorem apart {s t : Session σ} (h : Undisturbed s t) (hs : s.Apart) : t.Apart := by
  rw [Apart, h.home]
  exact hs

end Undisturbed

/-- Only the dictionary's own file is written. -/
theorem saveDictionary_undisturbed {s : Session σ} (hs : s.Apart) :
    Undisturbed s s.saveDictionary := by
  rw [saveDictionary, Dictionary.save]
  by_cases hdirty : s.dictionary.dirty = true
  · cases hhome : s.dictionary.home with
    | none => simpa [hdirty] using ⟨rfl, hhome.symm, rfl, fun _ _ => rfl⟩
    | some home =>
        by_cases hw : s.directory.writable = true
        · have hfiles (name : String) (hname : IsTraining name) :
              (s.directory.files.insert home
                (.octets (Text.toOctets s.dictionary.render)))[name]? =
                s.directory.files[name]? := by
            have hne : home ≠ name := fun h => hs home (by simp [hhome]) (h ▸ hname)
            rw [Table.getElem?_insert, if_neg hne]
          simpa [hdirty, Directory.write, hw] using ⟨rfl, hhome.symm, hw.symm, hfiles⟩
        · simpa [hdirty, Directory.write, hw] using Undisturbed.refl s
  · simpa [hdirty] using Undisturbed.refl s

theorem expectPurchase_undisturbed {s t : Session σ} {player : String} (hs : s.Apart)
    (h : s.expectPurchase player = .ok t) : Undisturbed s t := by
  obtain ⟨purchases, new, d, -, hd, rfl⟩ := expectPurchase_eq_ok h
  have hsu : Undisturbed s (s.recalled player purchases d) :=
    ⟨rfl, (Dictionary.register_adds hd).home, rfl, fun _ _ => rfl⟩
  split
  · exact hsu.trans (saveDictionary_undisturbed (hsu.apart hs))
  · exact hsu

theorem decision_undisturbed {s t : Session σ} {player text : Text} {record : PurchaseRecord}
    (hs : s.Apart) (h : s.decision player text = .ok (some (record, t))) : Undisturbed s t := by
  obtain ⟨purchase, -, h⟩ := decision_eq_some h
  obtain ⟨-, -, d, d', hd, hd', rfl⟩ := recordOf_eq_some h
  have hsu : Undisturbed s { s with dictionary := d' } :=
    ⟨rfl, ((Dictionary.idsFor_adds hd).trans (Dictionary.idFor_adds hd')).home, rfl,
      fun _ _ => rfl⟩
  exact hsu.trans (saveDictionary_undisturbed (hsu.apart hs))

/-- The winner, if the line ends an episode. -/
def winnerOf (line : Text) : Option Text :=
  match Inbound.read (Text.trim line) with
  | .gameStopped winner => some winner
  | _ => none

/-- The record that the line adds, if it adds one. -/
def recordFrom (s : Session σ) (line : Text) : Option PurchaseRecord :=
  match Inbound.read (Text.trim line) with
  | .purchaseMade player text => match s.decision player text with
    | .ok made => made.map Prod.fst
    | .error _ => none
  | _ => none

/-- What a line does to the files for training: it ends the episode, adds a record to the dataset, or
leaves all of them as they are. -/
theorem handle_cases {s t : Session σ} {line : Text} {r : Option Response} (hs : s.Apart)
    (h : s.handle p line = .ok (r, t)) :
    (∃ winner, winnerOf line = some winner ∧ s.endEpisode winner = .ok t) ∨
      (∃ record u, winnerOf line = none ∧ s.recordFrom line = some record ∧ Undisturbed s u ∧
        t = u.keep record) ∨
      winnerOf line = none ∧ s.recordFrom line = none ∧ Undisturbed s t := by
  have hbooks := handle_booksAfter h
  rw [winnerOf, recordFrom]
  cases hread : Inbound.read (Text.trim line) with
  | prompt | round | info | note | change =>
      rw [hread] at hbooks
      exact Or.inr (Or.inr ⟨rfl, rfl, .of_sameBooks hbooks⟩)
  | gameStopped winner =>
      rw [hread] at hbooks
      exact Or.inl ⟨winner, rfl, hbooks⟩
  | purchaseAhead player =>
      rw [hread] at hbooks
      exact Or.inr (Or.inr ⟨rfl, rfl, expectPurchase_undisturbed hs hbooks⟩)
  | purchaseMade player text =>
      rw [hread] at hbooks
      rcases purchaseMade_eq_ok hbooks with ⟨hd, rfl⟩ | ⟨record, u, hd, rfl⟩
      · exact Or.inr (Or.inr ⟨rfl, by simp [hd], .refl _⟩)
      · exact Or.inr (Or.inl ⟨record, u, rfl, by simp [hd], decision_undisturbed hs hd, rfl⟩)

end Session

end Warboard
