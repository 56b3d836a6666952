namespace Warboard

/-- An arithmetic result that its type cannot hold; it ends the run. -/
inductive Overflow
  | add
  | multiply
  deriving DecidableEq, Repr

abbrev Checked := Except Overflow

def addQuantity (a b : UInt32) : Checked UInt32 :=
  if a.toNat + b.toNat < UInt32.size then .ok (a + b) else .error .add

/-- Is the number one of the signed 64-bit numbers? -/
def FitsAmount (n : Int) : Prop := Int64.minValue.toInt ≤ n ∧ n ≤ Int64.maxValue.toInt

instance (n : Int) : Decidable (FitsAmount n) := inferInstanceAs (Decidable (_ ∧ _))

def addAmount (a b : Int64) : Checked Int64 :=
  if FitsAmount (a.toInt + b.toInt) then .ok (a + b) else .error .add

def multiplyAmount (a b : Int64) : Checked Int64 :=
  if FitsAmount (a.toInt * b.toInt) then .ok (a * b) else .error .multiply

end Warboard
