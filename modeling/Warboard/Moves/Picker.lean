import Warboard.Moves.Legal

namespace Warboard

/-- A way to choose among the legal moves, with a state that each choice may change. No choice is to
pass. -/
structure Picker (σ : Type) where
  pick : σ → World → List LegalMove → Option LegalMove × σ

namespace Picker

/-- The next state of a generator of pseudo-random numbers, and the number that it yields. -/
def nextRandom (state : UInt64) : UInt64 × UInt64 :=
  let state := state + 0x9E3779B97F4A7C15
  let z := (state ^^^ (state >>> 30)) * 0xBF58476D1CE4E5B9
  let z := (z ^^^ (z >>> 27)) * 0x94D049BB133111EB
  (z ^^^ (z >>> 31), state)

/-- Chooses each move alike, and depends on the seed alone. -/
def random : Picker UInt64 where
  pick seed _ moves :=
    match moves with
    | [] => (none, seed)
    | m :: rest =>
      let (n, seed) := nextRandom seed
      ((m :: rest)[n.toNat % (rest.length + 1)]?, seed)

end Picker

end Warboard
