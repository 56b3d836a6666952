import Warboard.Board.World
import Warboard.Moves.Phase
import Warboard.Reach

namespace Warboard

/-- Some or all units of a stack go to another territory. -/
structure MovementMove where
  delegate : Phase
  origin : String
  target : String
  steps : Nat
  unit : String
  /-- The size of the stack. -/
  maxQuantity : UInt32
  targetOwner : String
  /-- The territories on the way, both ends included. -/
  path : List String
  deriving DecidableEq, Repr

namespace MovementMove

def immobile : List String := ["factory", "aaGun"]

variable (w : World) (player : String)

/-- Own territory can be crossed but not attacked. -/
def attack (i : TerritoryId) : Visit :=
  if w.board.ownerOf i = player then .passThrough else .recordAndExpand

/-- Only own territory can be entered. -/
def reposition (i : TerritoryId) : Visit :=
  if w.board.ownerOf i = player then .recordAndExpand else .skip

def isMobile (s : Stack) : Bool :=
  s.key.owner = player && 0 < s.quantity && !immobile.contains s.key.unit

def ofReached (phase : Phase) (origin : Territory) (s : Stack) (r : Reached TerritoryId) :
    MovementMove where
  delegate := phase
  origin := origin.name
  target := w.board.nameOf r.node
  steps := r.steps
  unit := s.key.unit
  maxQuantity := s.quantity
  targetOwner := w.board.ownerOf r.node
  path := r.path.map w.board.nameOf

def ofStack (phase : Phase) (policy : TerritoryId → Visit) (origin : Territory) (i : TerritoryId)
    (s : Stack) : List MovementMove :=
  if isMobile player s then
    (Reach.explore w.board.neighborsOf policy i (w.catalog.movement s.key.unit).toNat).map
      (ofReached w phase origin s)
  else []

/-- The moves of all stacks of the player, in map and stack order. Each stack is on its own, so two
may go to the same territory. -/
def legal (phase : Phase) (policy : TerritoryId → Visit) : List MovementMove :=
  w.board.territories.zipIdx.flatMap fun (t, i) =>
    t.units.flatMap (ofStack w player phase policy t i)

def combat : List MovementMove := legal w player .combat (attack w player)

def noncombat : List MovementMove := legal w player .noncombat (reposition w player)

end MovementMove

end Warboard
