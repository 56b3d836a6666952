import Warboard.Text.Scan

namespace Warboard

/-- A line of the engine, by what it asks for. -/
inductive Inbound
  /-- A prompt for a move; the word names the phase. -/
  | prompt (phase : Text)
  | round (token : Text)
  | gameStopped (winner : Text)
  | info
  /-- A purchase decision of the player is about to be made. -/
  | purchaseAhead (player : Text)
  /-- The purchase that was made. -/
  | purchaseMade (player text : Text)
  /-- Notes on another phase. -/
  | note (phase player : Text)
  | change (line : Text)
  deriving DecidableEq, Repr

namespace Inbound

open Text

def readInfo (line : Text) : Inbound :=
  match words line with
  | [_, _, _, token] => .round token
  | parts =>
    if parts[2]? = some "stopped".toList then
      match (parts[5]?.getD []).takeWhile (· ≠ ']') with
      | [] => .gameStopped "unknown".toList
      | winner => .gameStopped winner
    else .info

/-- The tag is already past. -/
def readNote (t : Text) : Inbound :=
  let t := trimStart t
  let phase := t.takeWhile fun c => !isBlank c
  let tail := trim (t.dropWhile fun c => !isBlank c)
  if phase = "purchase".toList then .purchaseAhead (firstWord tail)
  else if phase = "chosen".toList then
    match cutAt "::" tail with
    | some (player, text) => .purchaseMade (trim player) (trim text)
    | none => .purchaseMade tail []
  else .note phase (firstWord tail)

/-- Lines begin with a tag; one without is a change of the board. -/
def read (line : Text) : Inbound :=
  match after "[MY_MOVE]" line with
  | some t => .prompt (firstWord t)
  | none =>
    if startsWith "[INFO]" line then readInfo line
    else match after "[FOR_DB]" line with
      | some t => readNote t
      | none => .change line

end Inbound

end Warboard
