import Warboard.Json.Printer
import Warboard.Json.Fields

namespace Warboard

/-- The part of a turn that a move belongs to. -/
inductive Phase
  | purchase
  | combat
  | noncombat
  | place
  deriving DecidableEq, Repr

namespace Phase

/-- In the order of a turn. -/
def all : List Phase := [purchase, combat, noncombat, place]

def name : Phase → String
  | purchase => "purchase"
  | combat => "combat"
  | noncombat => "noncombat"
  | place => "place"

def ofName? (s : String) : Option Phase := all.find? fun p => p.name = s

def toJson (p : Phase) : Json := Json.ofString p.name

/-- A phase is written as its name, and is also read from an object with that one key and null. -/
def ofJson : Json → Option Phase
  | .object [(key, .null)] => do ofName? (String.ofList (← Json.unescape key))
  | j => j.string? >>= ofName?

end Phase

end Warboard
