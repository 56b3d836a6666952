import Warboard.Json.Escape
import Warboard.Text.Decimal

namespace Warboard.Json

/-- The white space that a writer puts around the items of an array or object. -/
structure Spacing where
  opening : Text
  comma : Text
  colon : Text
  closing : Text

namespace Spacing

def compact : Spacing := ⟨[], [], [], []⟩

/-- One blank after each separator. -/
def spaced : Spacing := ⟨[], [' '], [' '], []⟩

/-- One entry to a line, for a document without inner arrays and objects. -/
def lines : Spacing := ⟨['\n', ' ', ' '], ['\n', ' ', ' '], [' '], ['\n']⟩

end Spacing

variable (sp : Spacing)

def quote (lexeme : Text) : Text := '"' :: lexeme ++ ['"']

mutual

def render : Json → Text
  | .null => "null".toList
  | .bool true => "true".toList
  | .bool false => "false".toList
  | .number n => n
  | .string s => quote s
  | .array [] => ['[', ']']
  | .array (j :: js) => '[' :: sp.opening ++ render j ++ renderItems js ++ sp.closing ++ [']']
  | .object [] => ['\x7b', '\x7d']
  | .object ((k, j) :: es) =>
    '\x7b' :: sp.opening ++ quote k ++ ':' :: sp.colon ++ render j ++ renderEntries es ++
      sp.closing ++ ['\x7d']

def renderItems : List Json → Text
  | [] => []
  | j :: js => ',' :: sp.comma ++ render j ++ renderItems js

def renderEntries : List (Text × Json) → Text
  | [] => []
  | (k, j) :: es => ',' :: sp.comma ++ quote k ++ ':' :: sp.colon ++ render j ++ renderEntries es

end

def ofNat (n : Nat) : Json := .number (Text.digits n)

def ofInt (n : Int) : Json := .number (Text.signedDigits n)

def ofOption {α : Type} (f : α → Json) : Option α → Json
  | some a => f a
  | none => .null

/-- An object with the given keys. -/
def record (entries : List (String × Json)) : Json :=
  .object (entries.map fun (k, j) => (escape k.toList, j))

end Warboard.Json
