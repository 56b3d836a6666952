namespace Warboard.Text

/-- Is the code point in one of the ranges? They are listed in increasing order. -/
def within : List (Nat × Nat) → Nat → Bool
  | [], _ => false
  | (lo, hi) :: rest, n => if n < lo then false else n ≤ hi || within rest n

end Warboard.Text
