import Warboard.Text.Blank

namespace Warboard.Text

def digitChar (n : Nat) : Char := Char.ofNat (48 + n)

def digitValue (c : Char) : Nat := c.toNat - 48

/-- The decimal digits of a number, without leading zeros. -/
def digits (n : Nat) : Text :=
  if n < 10 then [digitChar n] else digits (n / 10) ++ [digitChar (n % 10)]

def signedDigits (n : Int) : Text :=
  if n < 0 then '-' :: digits n.natAbs else digits n.natAbs

def valueOf (ds : Text) : Nat := ds.foldl (fun n c => n * 10 + digitValue c) 0

/-- Only the digits `0` to `9` are read, and at least one. -/
def readNat (t : Text) : Option Nat :=
  if t ≠ [] ∧ List.all t Char.isDigit then some (valueOf t) else none

def readInt : Text → Option Int
  | '-' :: t => (readNat t).map fun n => -(n : Int)
  | t => (readNat t).map Int.ofNat

def readUInt32 (t : Text) : Option UInt32 := do
  let n ← readNat t
  if h : n < UInt32.size then some (UInt32.ofNatLT n h) else none

def readInt64 (t : Text) : Option Int64 := do
  let n ← readInt t
  if Int64.minValue.toInt ≤ n ∧ n ≤ Int64.maxValue.toInt then some (Int64.ofInt n) else none

end Warboard.Text
