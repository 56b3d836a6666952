import Warboard.Change.Block
import Warboard.Text.Quoted
import Std.Data.ExtTreeMap

namespace Warboard

/-- A unit type and the owner of units of that type. -/
structure UnitKey where
  unit : String
  owner : String
  deriving DecidableEq, Repr

namespace UnitKey

def order : UnitKey → UnitKey → Ordering := compareLex (compareOn unit) (compareOn owner)

instance : Ord UnitKey := ⟨order⟩

instance : Std.TransOrd UnitKey :=
  inferInstanceAs (Std.TransCmp (compareLex (compareOn unit) (compareOn owner)))

instance : Std.LawfulEqOrd UnitKey where
  eq_of_compare {a b} h := by
    have h' : compareLex (compareOn unit) (compareOn owner) a b = .eq := h
    simp [compareLex, compareOn, Ordering.then_eq_eq] at h'
    cases a; cases b; simp_all

end UnitKey

namespace Change

open Text

structure Battle where
  id : String
  territory : String
  deriving DecidableEq, Repr

/-- A change of the board that the engine reports. -/
inductive Event
  /-- The agent plays for this player. -/
  | role (player : String)
  | battles (records : List Battle)
  | ownership (player territory previous : String)
  /-- The target is a territory, or a player whose pool the units enter. -/
  | addUnits (target : String) (units : List UnitKey)
  | removeUnits (target : String) (units : List UnitKey)
  | resource (player : String) (quantity : Int64)
  | property (key : UnitKey) (property newValue oldValue : String)
  deriving DecidableEq, Repr

/-- What a line of the engine says: one event, or a batch of texts to be read in turn. -/
inductive Notice
  | single (event : Event)
  | composite (fragments : List Text) (closed : Bool)
  deriving DecidableEq, Repr

def Notice.kind : Notice → String
  | .composite .. => "composite"
  | .single (.role ..) => "role"
  | .single (.battles ..) => "battle-records"
  | .single (.ownership ..) => "ownership"
  | .single (.addUnits ..) => "add-units"
  | .single (.removeUnits ..) => "remove-units"
  | .single (.resource ..) => "resource"
  | .single (.property ..) => "property"

inductive ReadError
  /-- The line, without the white space around it, has no known form. -/
  | unrecognized (line : Text)
  /-- A batch without a `<[`. -/
  | missingBlock
  /-- A field whose form is right has no value. -/
  | malformed (field : String) (value : Text)
  deriving DecidableEq, Repr

def ReadError.message : ReadError → String
  | .unrecognized line => "unrecognized change line: " ++ String.ofList (quoted line)
  | .missingBlock => "composite change without an opening `<[` marker"
  | .malformed field value => "malformed " ++ field ++ " field: " ++ String.ofList (quoted value)

end Change

end Warboard
