import Warboard.Text.Blank

namespace Warboard.Text

def isTail (b : UInt8) : Bool := 0x80 ≤ b && b ≤ 0xBF

/-- How many tail octets the lead octet calls for, and the range that the first of them may have. -/
def leadShape (b : UInt8) : Option (Nat × UInt8 × UInt8) :=
  if b < 0x80 then some (0, 0, 0)
  else if 0xC2 ≤ b && b ≤ 0xDF then some (1, 0x80, 0xBF)
  else if b = 0xE0 then some (2, 0xA0, 0xBF)
  else if b = 0xED then some (2, 0x80, 0x9F)
  else if 0xE1 ≤ b && b ≤ 0xEF then some (2, 0x80, 0xBF)
  else if b = 0xF0 then some (3, 0x90, 0xBF)
  else if 0xF1 ≤ b && b ≤ 0xF3 then some (3, 0x80, 0xBF)
  else if b = 0xF4 then some (3, 0x80, 0x8F)
  else none

def leadBits (b : UInt8) (tails : Nat) : Nat :=
  match tails with
  | 0 => b.toNat
  | 1 => b.toNat - 0xC0
  | 2 => b.toNat - 0xE0
  | _ => b.toNat - 0xF0

/-- The state between two octets of UTF-8: either no character is begun, or `value` holds the bits so
far, `left` tail octets are missing and the next lies between `lo` and `hi`. -/
inductive OctetState
  | boundary
  | within (value left : Nat) (lo hi : UInt8)

/-- Starts a character. An octet that starts none stands for itself as an error. -/
def beginOctet (b : UInt8) : OctetState × List (Option Char) :=
  match leadShape b with
  | none => (.boundary, [none])
  | some (0, _, _) => (.boundary, [some (Char.ofNat b.toNat)])
  | some (n, lo, hi) => (.within (leadBits b n) n lo hi, [])

/-- An octet that cannot go on with the character makes one error of what was begun, and is then
looked at afresh. -/
def stepOctet : OctetState → UInt8 → OctetState × List (Option Char)
  | .boundary, b => beginOctet b
  | .within value left lo hi, b =>
    if lo ≤ b && b ≤ hi then
      let value := value * 64 + (b.toNat - 0x80)
      if left ≤ 1 then (.boundary, [some (Char.ofNat value)])
      else (.within value (left - 1) 0x80 0xBF, [])
    else
      let (state, out) := beginOctet b
      (state, none :: out)

def decodeFrom : OctetState → List UInt8 → List (Option Char)
  | .boundary, [] => []
  | .within .., [] => [none]
  | state, b :: bs =>
    let (state, out) := stepOctet state b
    out ++ decodeFrom state bs

/-- The characters of an octet sequence; each longest ill-formed stretch is one `none`. -/
def decodeOctets (bs : List UInt8) : List (Option Char) := decodeFrom .boundary bs

def ofOctets (bs : List UInt8) : Option Text := (decodeOctets bs).mapM id

/-- Ill-formed stretches become replacement characters. -/
def ofOctetsLossy (bs : List UInt8) : Text := (decodeOctets bs).map fun c => c.getD (Char.ofNat 0xFFFD)

def toOctets (t : Text) : List UInt8 := t.flatMap String.utf8EncodeChar

end Warboard.Text
