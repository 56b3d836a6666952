import Warboard.Session.Basic

namespace Warboard.Session

/-- What was written to the engine, and whether all of it could be. -/
structure Transcript where
  ok : Bool
  output : Text
  deriving DecidableEq, Repr

/-- The lines of the input with their line ends; the last may have none. -/
def chunks : List UInt8 → List (List UInt8)
  | [] => []
  | b :: bs =>
    if b = 10 then [b] :: chunks bs
    else match chunks bs with
      | [] => [[b]]
      | chunk :: rest => (b :: chunk) :: rest

variable {σ : Type} (p : Picker σ)

/-- Handles the lines one after another. If there is a limit, writing fails after so many answers, which
ends the connection. -/
def serveLines : Option Nat → List Text → Session σ → Checked (Transcript × Session σ)
  | _, [], s => .ok (⟨true, []⟩, s)
  | limit, line :: lines, s => do
    match ← s.handle p line, limit with
    | (none, s), _ => serveLines limit lines s
    | (some _, s), some 0 => return (⟨false, []⟩, s)
    | (some response, s), _ =>
      let (rest, s) ← serveLines (limit.map (· - 1)) lines s
      return (⟨rest.ok, response.toLine ++ '\n' :: rest.output⟩, s)

/-- Serves the whole input of a connection. -/
def serve (limit : Option Nat) (input : List UInt8) (s : Session σ) :
    Checked (Transcript × Session σ) :=
  serveLines p limit ((chunks input).map Text.ofOctetsLossy) s

end Warboard.Session
