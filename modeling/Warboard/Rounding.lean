namespace Warboard

/-- The quotient rounded to the nearest, and to the even one of two. -/
def roundDiv (n d : Nat) : Nat :=
  let q := n / d
  let excess := 2 * (n % d)
  if excess < d ∨ excess = d ∧ q % 2 = 0 then q else q + 1

namespace Single

/-- The unit that a number of this magnitude is rounded to, as a power of two. -/
def place (mantissa : Nat) (exponent : Int) : Int := max (mantissa.log2 + exponent - 23) (-149)

/-- The magnitude `mantissa * 2 ^ exponent` in units of its place. -/
def units (mantissa : Nat) (exponent : Int) : Nat :=
  let shift := place mantissa exponent - exponent
  if shift < 0 then mantissa <<< (-shift).toNat else roundDiv mantissa (1 <<< shift.toNat)

/-- The bits of the nearest magnitude. A carry out of the units goes into the exponent's bits, and what
is too large becomes infinity. -/
def bits (mantissa : Nat) (exponent : Int) : Nat :=
  if mantissa = 0 then 0
  else
    min (units mantissa exponent + (place mantissa exponent + 149).toNat * 0x800000) 0x7F800000

/-- The number nearest to `mantissa * 2 ^ exponent` or to its negative. -/
def nearest (negative : Bool) (mantissa : Nat) (exponent : Int) : Float32 :=
  Float32.ofBits (UInt32.ofNat (bits mantissa exponent + if negative then 0x80000000 else 0))

/-- The number nearest to an integer. -/
def ofInt (n : Int) : Float32 := nearest (n < 0) n.natAbs 0

/-- The number nearest to one of higher precision. -/
def ofFloat (x : Float) : Float32 :=
  let word := x.toBits.toNat
  let negative : Bool := 0x8000000000000000 ≤ word
  let exponent := word / 0x10000000000000 % 0x800
  let fraction := word % 0x10000000000000
  if exponent = 0x7FF then
    if fraction = 0 then Float32.ofBits (if negative then 0xFF800000 else 0x7F800000) else 0 / 0
  else if exponent = 0 then nearest negative fraction (-1074)
  else nearest negative (fraction + 0x10000000000000) (exponent - 1075)

end Single

end Warboard
