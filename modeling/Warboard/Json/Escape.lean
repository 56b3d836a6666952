import Warboard.Json.Value
import Warboard.Text.Quoted

namespace Warboard.Json

open Text

/-- Spells a character inside a string. Only quotes, backslashes and control characters need it. -/
def escapeChar (c : Char) : Text :=
  if c = '"' then ['\\', '"']
  else if c = '\\' then ['\\', '\\']
  else if c.toNat = 8 then ['\\', 'b']
  else if c = '\t' then ['\\', 't']
  else if c = '\n' then ['\\', 'n']
  else if c.toNat = 12 then ['\\', 'f']
  else if c = '\r' then ['\\', 'r']
  else if c.toNat < 32 then ['\\', 'u', '0', '0', hexDigit (c.toNat / 16), hexDigit (c.toNat % 16)]
  else [c]

def escape (t : Text) : Text := t.flatMap escapeChar

def isHexDigit (c : Char) : Bool :=
  c.isDigit || ('a' ≤ c && c ≤ 'f') || ('A' ≤ c && c ≤ 'F')

def hexDigitValue (c : Char) : Nat :=
  if c.isDigit then c.toNat - 48 else if 'a' ≤ c then c.toNat - 87 else c.toNat - 55

/-- The UTF-16 unit that four hexadecimal digits spell. -/
def unitOf (a b c d : Char) : Nat :=
  ((hexDigitValue a * 16 + hexDigitValue b) * 16 + hexDigitValue c) * 16 + hexDigitValue d

def isLeadUnit (n : Nat) : Bool := 0xD800 ≤ n && n < 0xDC00

def isTrailUnit (n : Nat) : Bool := 0xDC00 ≤ n && n < 0xE000

def pairValue (lead trail : Nat) : Nat := 0x10000 + (lead - 0xD800) * 0x400 + (trail - 0xDC00)

/-- The characters with an escape of one letter. -/
def shortEscape : Char → Option Char
  | '"' => some '"'
  | '\\' => some '\\'
  | '/' => some '/'
  | 'b' => some (Char.ofNat 8)
  | 'f' => some (Char.ofNat 12)
  | 'n' => some '\n'
  | 'r' => some '\r'
  | 't' => some '\t'
  | _ => none

/-- The text that a string token spells; none if one half of a surrogate pair stands alone. -/
def unescape : Text → Option Text
  | [] => some []
  | '\\' :: 'u' :: a :: b :: c :: d :: t =>
    if isLeadUnit (unitOf a b c d) then
      match t with
      | '\\' :: 'u' :: e :: f :: g :: h :: t =>
        if isTrailUnit (unitOf e f g h) then
          (unescape t).map (Char.ofNat (pairValue (unitOf a b c d) (unitOf e f g h)) :: ·)
        else none
      | _ => none
    else if isTrailUnit (unitOf a b c d) then none
    else (unescape t).map (Char.ofNat (unitOf a b c d) :: ·)
  | '\\' :: c :: t => match shortEscape c with
    | some c => (unescape t).map (c :: ·)
    | none => none
  | c :: t => (unescape t).map (c :: ·)

def ofText (t : Text) : Json := .string (escape t)

def ofString (s : String) : Json := ofText s.toList

end Warboard.Json
