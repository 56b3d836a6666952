import Warboard.Dictionary
import Warboard.Game
import Warboard.Moves.Picker
import Warboard.Wire.Inbound
import Warboard.Wire.Response

namespace Warboard

/-- The agent at work: the game, what it keeps of it, and how it chooses. -/
structure Session (σ : Type) where
  game : Game
  dictionary : Dictionary
  directory : Directory
  picker : σ
  episode : UInt32
  round : String
  /-- The balance that the last purchase decision began with. -/
  balanceBefore : Int64
  /-- The purchases that were legal then. -/
  purchases : List PurchaseMove
  deriving DecidableEq

namespace Session

variable {σ : Type}

/-- The name of the round before the first. -/
def noRound : String := "0"

def new (world : World) (dictionary : Dictionary) (directory : Directory) (picker : σ) :
    Session σ where
  game := .ofWorld world
  dictionary := dictionary
  directory := directory
  picker := picker
  episode := 1
  round := noRound
  balanceBefore := 0
  purchases := []

variable (p : Picker σ) (s : Session σ)

def world : World := s.game.world

def withBoard (b : Board) : Session σ := { s with game := s.game.withBoard b }

/-- Answers a prompt for a move. Without a known phase or a player to move for, it passes. A purchase
takes the place of all that is still to be placed. -/
def prompt (phase : Text) : Checked (Response × Session σ) :=
  match Phase.ofName? (String.ofList phase), s.world.controlled with
  | some phase, some player => do
    let s := if phase = .purchase then s.withBoard (s.world.board.clearUnplaced player) else s
    let moves ← LegalMove.all s.world player phase
    let (choice, picker) := p.pick s.picker s.world moves
    let s := { s with picker := picker }
    return match choice with
      | some move => (.actions move.actions, s)
      | none => (.pass, s)
  | _, _ => .ok (.pass, s)

/-- The number of the turn, if the round is one. -/
def turnOf : Text → Option UInt32
  | '+' :: t => Text.readUInt32 t
  | t => Text.readUInt32 t

def enterRound (token : Text) : Session σ :=
  { s with
    round := String.ofList token
    game.world.turn := (turnOf token).getD s.world.turn }

/-- The game is over: back to its start, with the dataset packed. -/
def endEpisode (winner : Text) : Checked (Session σ) := do
  let episode ← addQuantity s.episode 1
  return { s with
    game := Game.ofWorld s.world.reset
    directory := (s.directory.archive s.episode winner).getD s.directory
    episode := episode
    round := noRound
    purchases := [] }

/-- If the dictionary cannot be written, it stays changed. -/
def saveDictionary : Session σ :=
  match s.dictionary.save s.directory with
  | some (dictionary, directory) => { s with dictionary := dictionary, directory := directory }
  | none => s

/-- Remembers what the player could buy, and numbers the purchases. -/
def expectPurchase (player : String) : Checked (Session σ) := do
  let purchases ← PurchaseMove.legal s.world player
  let (new, dictionary) ← s.dictionary.register (purchases.map fun m => m.purchase.key)
  let s := { s with
    balanceBefore := s.world.board.balanceOf player
    purchases := purchases
    dictionary := dictionary }
  return if new then s.saveDictionary else s

/-- The record of a purchase that was expected, and the session with all numbers in it given. -/
def recordOf (player : String) (purchase : Purchase) :
    Checked (Option (PurchaseRecord × Session σ)) := do
  let chosen ← PurchaseMove.ofPurchase s.world player purchase
  if s.purchases.any fun m => m.purchase = chosen.purchase then
    let (legalMoves, dictionary) ← s.dictionary.idsFor (s.purchases.map fun m => m.purchase.key)
    let (chosenMove, dictionary) ← dictionary.idFor chosen.purchase.key
    let s := { s with dictionary := dictionary }.saveDictionary
    return some ({
      round := s.round
      player := player
      delegate := .purchase
      balanceBefore := s.balanceBefore
      balanceAfter := s.world.board.balanceOf player
      state := ← Features.ofWorld s.world .purchase
      legalMoves := legalMoves
      chosenMove := chosenMove }, s)
  else return none

/-- The record that a report of a purchase calls for. A text that names no purchase calls for none. -/
def decision (player text : Text) : Checked (Option (PurchaseRecord × Session σ)) := do
  match ← Purchase.ofText text with
  | some purchase => s.recordOf (String.ofList player) purchase
  | none => return none

/-- A record that cannot be written is lost. -/
def keep (record : PurchaseRecord) : Session σ :=
  { s with directory := (s.directory.append s.episode record).getD s.directory }

def purchaseMade (player text : Text) : Checked (Session σ) := do
  match ← s.decision player text with
  | some (record, s) => return s.keep record
  | none => return s

def answer : Inbound → Checked (Response × Session σ)
  | .prompt phase => s.prompt p phase
  | .round token => .ok (.acknowledged, s.enterRound token)
  | .gameStopped winner => do return (.acknowledged, ← s.endEpisode winner)
  | .info | .note .. => .ok (.acknowledged, s)
  | .purchaseAhead player => do return (.acknowledged, ← s.expectPurchase (String.ofList player))
  | .purchaseMade player text => do return (.acknowledged, ← s.purchaseMade player text)
  | .change line => do return (.acknowledged, { s with game := ← s.game.apply line })

/-- Handles a line of the engine. A blank line has no answer. -/
def handle (line : Text) : Checked (Option Response × Session σ) :=
  match Text.trim line with
  | [] => .ok (none, s)
  | c :: t => do
    let (response, s) ← s.answer p (.read (c :: t))
    return (some response, s)

end Session

end Warboard
