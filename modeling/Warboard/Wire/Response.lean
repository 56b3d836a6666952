import Warboard.Moves.Action

namespace Warboard

/-- The answer to one line of the engine. -/
inductive Response
  | acknowledged
  /-- The orders of a move; none of them passes. -/
  | actions (list : List Action)
  deriving DecidableEq, Repr

namespace Response

def pass : Response := .actions []

def toJson : Response → Json
  | acknowledged => .ofString "ACK"
  | actions list => .array (list.map Action.toJson)

def toLine (r : Response) : Text := r.toJson.render .compact

end Response

end Warboard
