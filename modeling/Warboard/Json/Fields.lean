import Warboard.Json.Escape
import Warboard.Text.Decimal

namespace Warboard.Json

def string? : Json → Option String
  | .string lexeme => (unescape lexeme).map String.ofList
  | _ => none

/-- A whole number, written without point, exponent or sign of zero. -/
def int? : Json → Option Int
  | .number lexeme => if lexeme = ['-', '0'] then none else Text.readInt lexeme
  | _ => none

def below? (size : Nat) (j : Json) : Option Nat := do
  let n ← j.int?
  if 0 ≤ n ∧ n.toNat < size then some n.toNat else none

def between? (lo hi : Int) (j : Json) : Option Int := do
  let n ← j.int?
  if lo ≤ n ∧ n ≤ hi then some n else none

def uint16? (j : Json) : Option UInt16 := (j.below? UInt16.size).map UInt16.ofNat

def uint32? (j : Json) : Option UInt32 := (j.below? UInt32.size).map UInt32.ofNat

def uint64? (j : Json) : Option UInt64 := (j.below? UInt64.size).map UInt64.ofNat

def int32? (j : Json) : Option Int32 :=
  (j.between? Int32.minValue.toInt Int32.maxValue.toInt).map Int32.ofInt

def int64? (j : Json) : Option Int64 :=
  (j.between? Int64.minValue.toInt Int64.maxValue.toInt).map Int64.ofInt

def list? {α : Type} (f : Json → Option α) : Json → Option (List α)
  | .array js => js.mapM f
  | _ => none

/-- Null stands for an absent value. -/
def option? {α : Type} (f : Json → Option α) : Json → Option (Option α)
  | .null => some none
  | j => (f j).map some

/-- The entries of an object, in order. -/
def entries? {α : Type} (f : Json → Option α) : Json → Option (List (String × α))
  | .object es => es.mapM fun (k, j) => do return (String.ofList (← unescape k), ← f j)
  | _ => none

/-- The value of the field among the entries; a field given twice is refused. -/
def column (es : List (String × Json)) (field : String) : Option (Option Json) :=
  match es.filter fun e => e.1 = field with
  | [] => some none
  | [(_, j)] => some (some j)
  | _ => none

/-- The values of a record's fields, in the order of `fields`. A record is an object, in which other
keys are passed over, or an array with the values of the first fields in order. -/
def columns (fields : List String) : Json → Option (List (Option Json))
  | .object es => do
    let es ← (Json.object es).entries? some
    fields.mapM (column es)
  | .array js =>
    if js.length ≤ fields.length then
      some (js.map some ++ List.replicate (fields.length - js.length) none)
    else none
  | _ => none

/-- A field that may be left out. -/
def orElse {α : Type} (default : α) (f : Json → Option α) : Option Json → Option α
  | some j => f j
  | none => some default

end Warboard.Json
