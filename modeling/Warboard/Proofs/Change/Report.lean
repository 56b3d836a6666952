import Warboard.Proofs.Change.Tree
import Warboard.Proofs.Text.Decimal
import Warboard.Proofs.Text.Token

namespace Warboard.Change

open Text

/-- A name as reports have it. It does not make a line look like a batch. -/
structure Name extends Token isWord where
  simple : ¬ "CompositeChange".toList <:+: text

def isValue (c : Char) : Bool := isWord c || c = '.' || c = '-'

/-- The value of a property: a word or a number. -/
abbrev Value := Token isValue

structure Skirmish where
  id : Token isHex
  attacker : Name
  defender : Name
  territory : Name

namespace Skirmish

def render (s : Skirmish) : Text :=
  s.id.text ++ (":".toList ++ (s.attacker.text ++ (" attack ".toList ++ (s.defender.text ++
    (" battle in ".toList ++ s.territory.text)))))

def battle (s : Skirmish) : Battle := ⟨s.id.string, s.territory.string⟩

end Skirmish

/-- A unit in the list of a report. -/
structure Holding where
  unit : Name
  owner : Name

namespace Holding

def render (h : Holding) : Text := h.unit.text ++ (" owned by ".toList ++ h.owner.text)

def key (h : Holding) : UnitKey := ⟨h.unit.string, h.owner.string⟩

end Holding

/-- A single change as the engine announces it. Of a battle it also says who fights. -/
inductive Report
  | role (player : Name)
  | battles (player : Name) (skirmishes : List Skirmish)
  | ownership (player territory previous : Name)
  | addUnits (target : Name) (units : List Holding) (some : units ≠ [])
  | removeUnits (target : Name) (units : List Holding) (some : units ≠ [])
  | resource (quantity : Int64) (player : Name)
  | property (of : Holding) (field : Name) (newValue oldValue : Value)

def listed (entries : List Text) : Text := Tree.separator.intercalate entries

namespace Line

def role (player : Name) : Text := "Role: ".toList ++ player.text

theorem role_def (player : Name) : role player = "Role: ".toList ++ player.text := rfl

def battles (player : Name) (skirmishes : List Skirmish) : Text :=
  "Adding Battle Records:".toList ++ (" [".toList ++ (player.text ++ ("=[".toList ++
    (listed (skirmishes.map Skirmish.render) ++ "]]".toList))))

theorem battles_def (player : Name) (skirmishes : List Skirmish) :
    battles player skirmishes =
      "Adding Battle Records:".toList ++ (" [".toList ++ (player.text ++ ("=[".toList ++
        (listed (skirmishes.map Skirmish.render) ++ "]]".toList)))) := rfl

def ownership (player territory previous : Name) : Text :=
  player.text ++ (" takes ".toList ++ (territory.text ++ (" from ".toList ++ previous.text)))

/-- A target and its units, behind the words that say which way they go. -/
def transfer (lead : String) (target : Name) (units : List Holding) : Text :=
  lead.toList ++ (target.text ++ (" units: [".toList ++
    (listed (units.map Holding.render) ++ "]".toList)))

def resource (quantity : Int64) (player : Name) : Text :=
  "Change resource.  ".toList ++ ("Resource:PUs quantity:".toList ++
    (signedDigits quantity.toInt ++ (" Player:".toList ++ player.text)))

theorem resource_def (quantity : Int64) (player : Name) :
    resource quantity player =
      "Change resource.  ".toList ++ ("Resource:PUs quantity:".toList ++
        (signedDigits quantity.toInt ++ (" Player:".toList ++ player.text))) := rfl

def property (of : Holding) (field : Name) (newValue oldValue : Value) : Text :=
  "Property change, unit:".toList ++ (of.render ++ (" property:".toList ++ (field.text ++
    (" newValue:".toList ++ (newValue.text ++ (" oldValue:".toList ++ oldValue.text))))))

theorem property_def (of : Holding) (field : Name) (newValue oldValue : Value) :
    property of field newValue oldValue =
      "Property change, unit:".toList ++ (of.render ++ (" property:".toList ++ (field.text ++
        (" newValue:".toList ++ (newValue.text ++ (" oldValue:".toList ++ oldValue.text)))))) :=
  rfl

end Line

namespace Report

/-- The line that announces the change. -/
def render : Report → Text
  | role player => Line.role player
  | battles player skirmishes => Line.battles player skirmishes
  | ownership player territory previous => Line.ownership player territory previous
  | addUnits target units _ => Line.transfer "Add unit change.  Add to: " target units
  | removeUnits target units _ => Line.transfer "Remove unit change.  Remove from: " target units
  | resource quantity player => Line.resource quantity player
  | property of field newValue oldValue => Line.property of field newValue oldValue

def event : Report → Event
  | role player => .role player.string
  | battles _ skirmishes => .battles (skirmishes.map Skirmish.battle)
  | ownership player territory previous =>
      .ownership player.string territory.string previous.string
  | addUnits target units _ => .addUnits target.string (units.map Holding.key)
  | removeUnits target units _ => .removeUnits target.string (units.map Holding.key)
  | resource quantity player => .resource player.string quantity
  | property of field newValue oldValue =>
      .property of.key field.string newValue.string oldValue.string

def values : Report → List Value
  | property _ _ newValue oldValue => [newValue, oldValue]
  | _ => []

end Report

/-- A token ends where a label that begins with another character follows. -/
theorem run_append_label {p : Char → Bool} (w : Token p) {l : String}
    (h : l.toList.head?.any (!p ·) = true) (rest : Text) :
    run p (w.text ++ (l.toList ++ rest)) = some (w.text, l.toList ++ rest) := by
  apply w.run_append
  cases hl : l.toList <;> simp_all

theorem Name.name_append (w : Name) {l : String} (h : l.toList.head?.any (!isWord ·) = true)
    (rest : Text) : name (w.text ++ (l.toList ++ rest)) = some (w.string, l.toList ++ rest) := by
  rw [name, word, run_append_label w.toToken h]
  rfl

theorem Name.name_text (w : Name) : name w.text = some (w.string, []) := by
  rw [name, word, w.run_text]
  rfl

theorem value_eq (t : Text) :
    value t = (run isValue t).map fun (w, rest) => (String.ofList w, rest) := rfl

theorem value_append (v : Value) {l : String} (h : l.toList.head?.any (!isValue ·) = true)
    (rest : Text) : value (v.text ++ (l.toList ++ rest)) = some (v.string, l.toList ++ rest) := by
  rw [value_eq, run_append_label v h]
  rfl

theorem value_text (v : Value) : value v.text = some (v.string, []) := by
  rw [value_eq, v.run_text]
  rfl

theorem role_line (player : Name) : role (Line.role player) = some (.role player.string) := by
  rw [Line.role_def]
  simp only [role, after_append, player.name_text, Option.bind_eq_bind, Option.bind_some,
    Option.pure_def]

theorem ownership_line (player territory previous : Name) :
    ownership (Line.ownership player territory previous) =
      some (.ownership player.string territory.string previous.string) := by
  simp only [ownership, Line.ownership, player.name_append (l := " takes ") (by decide),
    territory.name_append (l := " from ") (by decide), previous.name_text, after_append,
    Option.bind_eq_bind, Option.bind_some, Option.pure_def]

end Warboard.Change
