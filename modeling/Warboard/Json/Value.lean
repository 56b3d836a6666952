import Warboard.Text.Blank

namespace Warboard

/-- A JSON document. Number and string tokens keep their spelling, a string's without the quotes, and
an object keeps its entries in order, repeated keys included. -/
inductive Json
  | null
  | bool (b : Bool)
  | number (lexeme : Text)
  | string (lexeme : Text)
  | array (items : List Json)
  | object (entries : List (Text × Json))
  deriving Repr, Inhabited

end Warboard
