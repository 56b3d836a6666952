import Warboard.Moves.Purchase

namespace Warboard

/-- All bought units of a type go to one territory. -/
structure Placement where
  unit : String
  target : String
  quantity : UInt32
  deriving DecidableEq, Repr

namespace Placement

/-- Assigns each entry of the pool to a factory, or leaves it for later. The choice for the last
entry varies fastest, and leaving it comes after all factories. -/
def assignments (factories : List String) : List (String × UInt32) → List (List Placement)
  | [] => [[]]
  | (unit, n) :: pool =>
    factories.flatMap (fun target => (assignments factories pool).map (⟨unit, target, n⟩ :: ·)) ++
      assignments factories pool

/-- Nothing for a player without a factory or without units to place. -/
def legal (w : World) (player : String) : List (List Placement) :=
  let pool := (w.board.unplacedOf player).toList.filter fun (_, n) => 0 < n
  match w.board.factoryNames player, pool with
  | [], _ | _, [] => []
  | factories, pool => assignments factories pool

end Placement

end Warboard
