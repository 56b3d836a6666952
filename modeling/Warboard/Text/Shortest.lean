import Warboard.Text.Decimal

namespace Warboard.Text

/-- The positive number `mantissa * 2 ^ exponent` among the numbers of its type. -/
structure Binary where
  mantissa : Nat
  exponent : Int
  /-- Is the number below at half the distance of the number above? -/
  narrow : Bool
  deriving DecidableEq, Repr

namespace Binary

/-- The magnitude of a finite number. -/
def ofFloat32 (x : Float32) : Binary :=
  let bits := x.toBits.toNat % 0x80000000
  let exponent := bits / 0x800000
  let fraction := bits % 0x800000
  if exponent = 0 then ⟨fraction, -149, false⟩
  else ⟨fraction + 0x800000, exponent - 150, fraction = 0 && 1 < exponent⟩

variable (b : Binary)

/-- The multiple of `10 ^ place` next to the number, in units of `10 ^ place`, if it is positive and no
other number of the type is nearer to it. A tie goes to the even one. -/
def multiple? (place : Int) : Option Nat :=
  let e := b.exponent - 2
  let scale := Nat.pow 2 e.toNat * Nat.pow 10 (-place).toNat
  let unit := Nat.pow 2 (-e).toNat * Nat.pow 10 place.toNat
  let lo := (4 * b.mantissa - if b.narrow then 1 else 2) * scale
  let mid := 4 * b.mantissa * scale
  let hi := (4 * b.mantissa + 2) * scale
  let n := mid / unit
  let excess := 2 * (mid - n * unit)
  let near := if excess < unit ∨ excess = unit ∧ n % 2 = 0 then [n, n + 1] else [n + 1, n]
  near.find? fun k => 0 < k &&
    if b.mantissa % 2 = 0 then lo ≤ k * unit && k * unit ≤ hi else lo < k * unit && k * unit < hi

/-- The fewest digits that read back as the number, and the place of the last of them. -/
def shortest : Nat × Int :=
  ((List.range 100).findSome? fun (i : Nat) =>
    let place : Int := 39 - i
    (b.multiple? place).map fun n => (n, place)).getD (0, 0)

end Binary

/-- Digits with a point, or with an exponent far from one. The number before the digits is the place
of the last of them. -/
def withPoint (place : Int) (ds : Text) : Text :=
  let size := place + ds.length
  if 0 ≤ place ∧ size ≤ 13 then ds ++ List.replicate place.toNat '0' ++ ['.', '0']
  else if 0 < size ∧ size ≤ 13 then ds.take size.toNat ++ '.' :: ds.drop size.toNat
  else if -6 < size ∧ size ≤ 0 then '0' :: '.' :: List.replicate (-size).toNat '0' ++ ds
  else
    (match ds with
      | [] => []
      | [d] => [d]
      | d :: ds => d :: '.' :: ds) ++ 'e' :: signedDigits (size - 1)

/-- The text of a finite number. -/
def ofFloat32 (x : Float32) : Text :=
  let b := Binary.ofFloat32 x
  let magnitude := if b.mantissa = 0 then ['0', '.', '0'] else
    let (n, place) := b.shortest
    withPoint place (digits n)
  if x.toBits < 0x80000000 then magnitude else '-' :: magnitude

end Warboard.Text
