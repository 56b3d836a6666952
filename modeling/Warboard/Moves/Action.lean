import Warboard.Moves.Phase

namespace Warboard

/-- One order to the engine. -/
structure Action where
  delegate : Phase
  /-- Empty unless the order moves units. -/
  origin : String
  target : String
  unit : String
  deriving DecidableEq, Repr

namespace Action

def toJson (a : Action) : Json :=
  .record [("delegate", a.delegate.toJson), ("from", .ofString a.origin), ("to", .ofString a.target),
    ("unit", .ofString a.unit)]

def ofJson (j : Json) : Option Action := do
  let [some delegate, some origin, some target, some unit] ← j.columns ["delegate", "from", "to", "unit"]
    | none
  return ⟨← Phase.ofJson delegate, ← origin.string?, ← target.string?, ← unit.string?⟩

end Action

end Warboard
