import Warboard.Moves.Action
import Warboard.Moves.Movement
import Warboard.Moves.Placement

namespace Warboard

inductive LegalMove
  | purchase (move : PurchaseMove)
  | movement (move : MovementMove)
  | place (list : List Placement)
  deriving DecidableEq

namespace LegalMove

def phase : LegalMove → Phase
  | purchase _ => .purchase
  | movement m => m.delegate
  | place _ => .place

/-- One order for each unit that is bought or placed, and one for a movement. Bought units go to the
first territory that they can be placed in. -/
def actions : LegalMove → List Action
  | purchase m => match m.placeIn with
    | [] => []
    | target :: _ => m.purchase.toList.flatMap fun (unit, n) =>
        List.replicate n.toNat ⟨.purchase, "", target, unit⟩
  | movement m => [⟨m.delegate, m.origin, m.target, m.unit⟩]
  | place list => list.flatMap fun p => List.replicate p.quantity.toNat ⟨.place, "", p.target, p.unit⟩

/-- All moves of the player in the phase. -/
def all (w : World) (player : String) : Phase → Checked (List LegalMove)
  | .purchase => do return (← PurchaseMove.legal w player).map .purchase
  | .combat => .ok ((MovementMove.combat w player).map .movement)
  | .noncombat => .ok ((MovementMove.noncombat w player).map .movement)
  | .place => .ok ((Placement.legal w player).map .place)

end LegalMove

end Warboard
