import Warboard.Moves.Action
import Warboard.Proofs.Json.Table

namespace Warboard

open Json

namespace Phase

theorem ofJson_toJson (p : Phase) : ofJson p.toJson = some p := by
  cases p <;> decide

end Phase

namespace Action

theorem written_toJson (a : Action) : Written a.toJson :=
  written_record_of_forall
    ⟨written_ofString _, written_ofString _, written_ofString _, written_ofString _⟩

theorem ofJson_toJson (a : Action) : ofJson a.toJson = some a := by
  rw [ofJson, toJson, columns_record]
  simp [column, Phase.ofJson_toJson, string?_ofString]

end Action

end Warboard
