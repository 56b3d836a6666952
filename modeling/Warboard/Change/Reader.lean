import Warboard.Change.Event
import Warboard.Text.Decimal
import Warboard.Text.LetterCase

namespace Warboard.Change

open Text

def name (t : Text) : Option (String × Text) := (word t).map fun (w, rest) => (String.ofList w, rest)

def role (t : Text) : Option Event := do
  let (player, _) ← name (← after "Role: " t)
  return .role player

def isHex (c : Char) : Bool := c.isDigit || ('a' ≤ c && c ≤ 'f')

/-- An identifier, and on the same line the place where its battle is. -/
def battle (t : Text) : Option (Battle × Text) := do
  let (id, t) ← run isHex t
  let (territory, rest) ← firstOnLine (fun u => after "battle in " u >>= name) (← after ":" t)
  return (⟨String.ofList id, territory⟩, rest)

def ownership (t : Text) : Option Event := do
  let (player, t) ← name t
  let (territory, t) ← name (← after " takes " t)
  let (previous, _) ← name (← after " from " t)
  return .ownership player territory previous

/-- One entry of a unit list. -/
def unitEntry (t : Text) : Option UnitKey := do
  let (unit, t) ← name (trim t)
  let (owner, _) ← name (← after " owned by " t)
  return ⟨unit, owner⟩

/-- The units of a list without its brackets. Entries of another form are passed over, and so are
closing brackets of a batch around the list. -/
def unitList (t : Text) : List UnitKey :=
  ((dropEndWhile (fun c => c = ']' || c = '>') t).splitOn ',').filterMap unitEntry

/-- The longest non-empty stretch of the line that a `]` follows. -/
def bracketed (t : Text) : Option Text :=
  match (t.takeWhile (· ≠ '\n')).reverse.dropWhile (· ≠ ']') with
  | _ :: c :: front => some (c :: front).reverse
  | _ => none

/-- A target and a unit list, at the last place on the line where `lead` begins such an end. -/
def transfer (lead : String) (t : Text) : Option (String × List UnitKey) :=
  lastOnLine (fun u => do
    let (target, u) ← name (← after lead u)
    let units ← bracketed (← after " units: [" u)
    return (target, unitList units)) t

def addUnits (t : Text) : Option Event := do
  let (target, units) ← transfer "Add to: " (← after "Add unit change" t)
  return .addUnits target units

def removeUnits (t : Text) : Option Event := do
  let (target, units) ← transfer "Remove from: " (← after "Remove unit change" t)
  return .removeUnits target units

/-- An amount, whose digits may be of any script, and the player it goes to. -/
def resource (t : Text) : Option (Text × String) := do
  let t ← after "Resource:PUs quantity:" t
  let (sign, t) := match t with
    | '-' :: t => (['-'], t)
    | t => ([], t)
  let (ds, t) ← run isWordDigit t
  let (player, _) ← name (← after " Player:" t)
  return (sign ++ ds, player)

def value (t : Text) : Option (String × Text) :=
  (run (fun c => isWord c || c = '.' || c = '-') t).map fun (w, rest) => (String.ofList w, rest)

def property (t : Text) : Option Event := do
  let (unit, t) ← name (← after "Property change, unit:" t)
  let (owner, t) ← name (← after " owned by " t)
  let (property, t) ← name (← after " property:" t)
  let (newValue, t) ← value (← after " newValue:" t)
  let (oldValue, _) ← value (← after " oldValue:" t)
  return .property ⟨unit, owner⟩ property newValue oldValue

/-- The forms that stand for themselves, each tried at every place before the next form is. -/
def readSingle (line : Text) : Except ReadError Event :=
  match firstMatch ownership line <|> firstMatch addUnits line <|> firstMatch removeUnits line with
  | some event => .ok event
  | none => match firstMatch resource line with
    | some (quantity, player) => match readInt64 quantity with
      | some n => .ok (.resource player n)
      | none => .error (.malformed "quantity" quantity)
    | none => match firstMatch property line with
      | some event => .ok event
      | none => .error (.unrecognized line)

def readTrimmed (line : Text) : Except ReadError Notice :=
  match firstMatch role line with
  | some event => .ok (.single event)
  | none => match from? "Adding Battle Records:" line with
    | some records => .ok (.single (.battles (allMatches battle records)))
    | none =>
      if mentions "CompositeChange" line then
        match Block.extract line with
        | some block => .ok (.composite (siblings block.inner) block.closed)
        | none => .error .missingBlock
      else (readSingle line).map .single

/-- Reads one line of the engine. -/
def read (line : Text) : Except ReadError Notice := readTrimmed (trim line)

/-- One bought rule and how many times it was bought; none if the number does not fit. -/
def productionEntry (t : Text) : Option (Option (String × UInt32) × Text) := do
  let (rule, t) ← word (← after "ProductionRule:buy" t)
  let (n, rest) ← run isWordDigit (trimStart (← after "->" (trimStart t)))
  return ((readUInt32 n).map fun n => (String.ofList (lower rule), n), rest)

/-- The unit types of a purchase that the engine echoes, each with its quantity, in the order of the
text. -/
def productions (t : Text) : List (String × UInt32) := (allMatches productionEntry t).filterMap id

end Warboard.Change
