import Warboard.Moves.Phase
import Warboard.Board.World
import Warboard.Rounding

namespace Warboard

/-- A game in numbers, for training. -/
structure Features where
  /-- For each territory one column for each owner and seven more. -/
  territories : List (List Float32)
  adjacency : List (List Float32)
  phase : List Float32
  deriving DecidableEq

namespace Features

def flag (b : Bool) : Float32 := if b then 1 else 0

/-- Zero for no values. -/
def mean (values : List Float32) : Float32 :=
  if values.isEmpty then 0
  else values.foldl (· + ·) 0 / Float32.ofNat values.length

/-- The rules of the stacks that can be bought. -/
def rulesOf (catalog : Catalog) (units : List Stack) : List UnitRule :=
  (units.filterMap fun s => catalog[s.key.unit]?).filter fun r => r.cost.isSome

def width (owners : Nat) : Nat := owners + 7

def row (w : World) (t : Territory) : Checked (List Float32) := do
  let total ← t.units.foldlM (fun n s => addQuantity n s.quantity) 0
  let rules := rulesOf w.catalog t.units
  return w.board.owners.values.map (fun o => flag (o.name = t.owner)) ++
    [Single.ofInt total.toNat,
     mean (rules.map fun r => Single.ofInt r.attack.toInt),
     mean (rules.map fun r => Single.ofInt r.defense.toInt),
     mean (t.units.map fun s => flag s.marks.wasInCombat),
     mean (t.units.map fun s => Single.ofFloat s.marks.alreadyMoved),
     flag t.victoryCity,
     flag t.battle]

/-- The phases that have a column. -/
def phases : List Phase := [.purchase, .combat, .noncombat]

def ofWorld (w : World) (phase : Phase) : Checked Features := do
  let ts := w.board.territories
  return {
    territories := ← ts.mapM (row w)
    adjacency := ts.map fun t => (List.range ts.length).map fun i => flag (t.neighbors.contains i)
    phase := phases.map fun p => flag (p = phase) }

end Features

end Warboard
