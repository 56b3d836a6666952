import Warboard.Proofs.Text.Decimal
import Warboard.Training.Directory

namespace Warboard.Directory

open Text

theorem datasetName_toList (episode : UInt32) :
    (datasetName episode).toList =
      "purchase".toList ++ (digits episode.toNat ++ '_' :: "dataset.jsonl".toList) := by
  simp [datasetName]

theorem archiveName_toList (episode : UInt32) (winner : Text) :
    (archiveName episode winner).toList =
      "purchase".toList ++ (digits episode.toNat ++
        'w' :: ("inner".toList ++ (fileSafe winner ++ "_dataset.zip".toList))) := by
  simp [archiveName]

/-- The names of different episodes' datasets and archives are different. -/
theorem datasetName_inj {e e' : UInt32} (h : datasetName e = datasetName e') : e = e' := by
  have h' := congrArg String.toList h
  rw [datasetName_toList, datasetName_toList] at h'
  exact UInt32.toNat_inj.mp
    (digits_append_cons_inj (by decide) (by decide) (List.append_cancel_left h')).1

theorem archiveName_inj {e e' : UInt32} {w w' : Text} (h : archiveName e w = archiveName e' w') :
    e = e' := by
  have h' := congrArg String.toList h
  rw [archiveName_toList, archiveName_toList] at h'
  exact UInt32.toNat_inj.mp
    (digits_append_cons_inj (by decide) (by decide) (List.append_cancel_left h')).1

theorem datasetName_ne_archiveName (e e' : UInt32) (w : Text) :
    datasetName e ≠ archiveName e' w := fun h => by
  have h' := congrArg String.toList h
  rw [datasetName_toList, archiveName_toList] at h'
  have hc := (digits_append_cons_inj (by decide) (by decide) (List.append_cancel_left h')).2
  exact absurd hc (by decide)

/-- Is the name one of a dataset or an archive, of whatever episode and winner? -/
def IsTraining (name : String) : Prop :=
  (∃ episode, name = datasetName episode) ∨ ∃ episode winner, name = archiveName episode winner

theorem isTraining_datasetName (episode : UInt32) : IsTraining (datasetName episode) :=
  Or.inl ⟨episode, rfl⟩

theorem isTraining_archiveName (episode : UInt32) (winner : Text) :
    IsTraining (archiveName episode winner) :=
  Or.inr ⟨episode, winner, rfl⟩

theorem IsTraining.head? {name : String} (h : IsTraining name) : name.toList.head? = some 'p' := by
  rcases h with ⟨episode, rfl⟩ | ⟨episode, winner, rfl⟩
  · rw [datasetName_toList]
    rfl
  · rw [archiveName_toList]
    rfl

end Warboard.Directory
