import Warboard.Json.Escape
import Warboard.Text.Scan

namespace Warboard.Json

open Text

def isSpace (c : Char) : Bool := c = ' ' || c = '\t' || c = '\n' || c = '\r'

def skipSpace (t : Text) : Text := t.dropWhile isSpace

/-- The rest of a string token after its opening quote, and the text after its closing quote. -/
def stringToken : Text → Option (Text × Text)
  | [] => none
  | '"' :: t => some ([], t)
  | '\\' :: 'u' :: a :: b :: c :: d :: t =>
    if isHexDigit a && isHexDigit b && isHexDigit c && isHexDigit d then
      (stringToken t).map fun (s, rest) => ('\\' :: 'u' :: a :: b :: c :: d :: s, rest)
    else none
  | '\\' :: c :: t =>
    if (shortEscape c).isSome then (stringToken t).map fun (s, rest) => ('\\' :: c :: s, rest)
    else none
  | c :: t =>
    if c.toNat < 32 || c = '\\' then none
    else (stringToken t).map fun (s, rest) => (c :: s, rest)

/-- One digit or more. -/
def someDigits (t : Text) : Option (Text × Text) :=
  match t.takeWhile Char.isDigit with
  | [] => none
  | c :: ds => some (c :: ds, t.dropWhile Char.isDigit)

/-- A whole number without leading zeros. -/
def wholeToken : Text → Option (Text × Text)
  | '0' :: t => some (['0'], t)
  | t => someDigits t

def fractionToken : Text → Option (Text × Text)
  | '.' :: t => (someDigits t).map fun (ds, rest) => ('.' :: ds, rest)
  | t => some ([], t)

def exponentToken : Text → Option (Text × Text)
  | c :: t =>
    if c = 'e' || c = 'E' then
      match t with
      | '+' :: t => (someDigits t).map fun (ds, rest) => (c :: '+' :: ds, rest)
      | '-' :: t => (someDigits t).map fun (ds, rest) => (c :: '-' :: ds, rest)
      | t => (someDigits t).map fun (ds, rest) => (c :: ds, rest)
    else some ([], c :: t)
  | [] => some ([], [])

def unsignedToken (t : Text) : Option (Text × Text) := do
  let (whole, t) ← wholeToken t
  let (fraction, t) ← fractionToken t
  let (exponent, t) ← exponentToken t
  return (whole ++ fraction ++ exponent, t)

def numberToken : Text → Option (Text × Text)
  | '-' :: t => (unsignedToken t).map fun (n, rest) => ('-' :: n, rest)
  | t => unsignedToken t

def atom (t : Text) : Option (Json × Text) :=
  match after "null" t, after "true" t, after "false" t with
  | some rest, _, _ => some (.null, rest)
  | _, some rest, _ => some (.bool true, rest)
  | _, _, some rest => some (.bool false, rest)
  | none, none, none => (numberToken t).map fun (n, rest) => (.number n, rest)

mutual

/-- Reads one value. The number bounds the steps; twice the length of the text is enough. -/
def value : Nat → Text → Option (Json × Text)
  | 0, _ => none
  | n + 1, t => match skipSpace t with
    | '"' :: t => (stringToken t).map fun (s, rest) => (.string s, rest)
    | '[' :: t => match skipSpace t with
      | ']' :: t => some (.array [], t)
      | t => (items n t).map fun (js, rest) => (.array js, rest)
    | '\x7b' :: t => match skipSpace t with
      | '\x7d' :: t => some (.object [], t)
      | t => (entries n t).map fun (es, rest) => (.object es, rest)
    | t => atom t

/-- One item or more, and the bracket that ends them. -/
def items : Nat → Text → Option (List Json × Text)
  | 0, _ => none
  | n + 1, t => do
    let (j, t) ← value n t
    match skipSpace t with
    | ']' :: t => return ([j], t)
    | ',' :: t =>
      let (js, t) ← items n t
      return (j :: js, t)
    | _ => none

/-- One entry or more, and the brace that ends them. -/
def entries : Nat → Text → Option (List (Text × Json) × Text)
  | 0, _ => none
  | n + 1, t => match skipSpace t with
    | '"' :: t => do
      let (key, t) ← stringToken t
      match skipSpace t with
      | ':' :: t =>
        let (j, t) ← value n t
        match skipSpace t with
        | '\x7d' :: t => return ([(key, j)], t)
        | ',' :: t =>
          let (es, t) ← entries n t
          return ((key, j) :: es, t)
        | _ => none
      | _ => none
    | _ => none

end

/-- Reads a document: one value with nothing but space around it. -/
def parse (t : Text) : Option Json :=
  match value (2 * t.length + 2) t with
  | some (j, rest) => if (skipSpace rest).isEmpty then some j else none
  | none => none

end Warboard.Json
