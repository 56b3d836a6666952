import Warboard.Text.Scan

namespace Warboard.Change

open Text

/-- What stands between the first `<[` of a line and its `]>`. -/
structure Block where
  inner : Text
  /-- Did the `]>` come before the end of the line? -/
  closed : Bool
  deriving DecidableEq, Repr

namespace Block

def cons (t : Text) (b : Block) : Block := { b with inner := t ++ b.inner }

/-- Reads a block whose `<[` is already past. The number counts the inner blocks still open. -/
def upTo : Nat → Text → Block
  | _, [] => ⟨[], false⟩
  | n, '<' :: '[' :: t => (upTo (n + 1) t).cons ['<', '[']
  | 0, ']' :: '>' :: _ => ⟨[], true⟩
  | n + 1, ']' :: '>' :: t => (upTo n t).cons [']', '>']
  | n, c :: t => (upTo n t).cons [c]

/-- The first block of the line; none if the line has no `<[`. -/
def extract (line : Text) : Option Block := (cutAt "<[" line).map fun (_, t) => upTo 0 t

end Block

def headers : List String :=
  ["Property change", "Add unit change", "Remove unit change", "Change resource",
   "CompositeChange ", "takes "]

/-- Does the text begin as a change does: with the header of a form, or with a player's name and
`takes`? -/
def startsChange (t : Text) : Bool :=
  headers.any (startsWith · t) ||
    match run isAlphanumericOr_ t with
    | some (_, rest) => startsWith " takes " rest
    | none => false
where
  isAlphanumericOr_ (c : Char) : Bool := isAlphanumeric c || c = '_'

/-- The pieces of a block's inner text, as they stand: cut at each `, ` outside inner blocks that a
change follows. The first piece is apart from the others, as there always is one. -/
def cut : Nat → Text → Text × List Text
  | _, [] => ([], [])
  | n, '<' :: '[' :: t => grow ['<', '['] (cut (n + 1) t)
  | n, ']' :: '>' :: t => grow [']', '>'] (cut (n - 1) t)
  | 0, ',' :: ' ' :: t =>
    if startsChange t then let later := cut 0 t; ([], later.1 :: later.2)
    else grow [','] (cut 0 (' ' :: t))
  | n, c :: t => grow [c] (cut n t)
where
  grow (w : Text) (pieces : Text × List Text) : Text × List Text := (w ++ pieces.1, pieces.2)

def pieces (inner : Text) : List Text :=
  let p := cut 0 inner
  p.1 :: p.2

/-- The changes of a batch, in order. -/
def siblings (inner : Text) : List Text := ((pieces inner).map trim).filter fun t => !t.isEmpty

end Warboard.Change
