import Warboard.Text.Decimal

namespace Warboard.Text

/-- The number `mantissa * 10 ^ exponent`, rounded to the nearest. Far outside the range of the type
the exponent no longer matters, which keeps the arithmetic small. -/
def scaled (mantissa : Nat) (exponent : Int) : Float :=
  if mantissa = 0 then 0
  else
    let size : Int := (digits mantissa).length + exponent
    if size > 400 then 1 / 0
    else if size < -400 then 0
    else Float.ofScientific mantissa (exponent < 0) exponent.natAbs

/-- An exponent's sign and digits; the text must end with them. -/
def readExponent : Text → Option Int
  | [] => some 0
  | c :: t =>
    if c = 'e' ∨ c = 'E' then
      match t with
      | '+' :: t => (readNat t).map Int.ofNat
      | t => readInt t
    else none

/-- Digits with an optional point among, before or after them, and an optional exponent. -/
def readUnsignedReal (t : Text) : Option Float :=
  let whole := t.takeWhile Char.isDigit
  let rest := t.dropWhile Char.isDigit
  let (fraction, rest) := match rest with
    | '.' :: rest => (rest.takeWhile Char.isDigit, rest.dropWhile Char.isDigit)
    | rest => ([], rest)
  if whole = [] ∧ fraction = [] then none
  else (readExponent rest).map fun e => scaled (valueOf (whole ++ fraction)) (e - fraction.length)

def readMagnitude (t : Text) : Option Float :=
  let name := t.map Char.toLower
  if name = "inf".toList ∨ name = "infinity".toList then some (1 / 0)
  else if name = "nan".toList then some (0 / 0)
  else readUnsignedReal t

/-- Reads a real number: a sign, and then digits or the name of infinity or of the non-number, in
letters of either case. -/
def readReal : Text → Option Float
  | '-' :: t => (readMagnitude t).map Float.neg
  | '+' :: t => readMagnitude t
  | t => readMagnitude t

end Warboard.Text
