import Warboard.Text.Ranges

namespace Warboard

/-- Running text: a line of the engine or a part of one. -/
abbrev Text := List Char

namespace Text

def blankRanges : List (Nat × Nat) :=
  [(0x9, 0xD), (0x20, 0x20), (0x85, 0x85), (0xA0, 0xA0), (0x1680, 0x1680), (0x2000, 0x200A),
   (0x2028, 0x2029), (0x202F, 0x202F), (0x205F, 0x205F), (0x3000, 0x3000)]

/-- The white space of every script, line breaks included. -/
def isBlank (c : Char) : Bool := within blankRanges c.toNat

def dropEndWhile (p : Char → Bool) (t : Text) : Text := (t.reverse.dropWhile p).reverse

def trimStart (t : Text) : Text := t.dropWhile isBlank

def trimEnd (t : Text) : Text := dropEndWhile isBlank t

def trim (t : Text) : Text := trimEnd (trimStart t)

/-- The longest stretches without white space, in order. -/
def words (t : Text) : List Text := (t.splitOnP isBlank).filter fun w => !w.isEmpty

def firstWord (t : Text) : Text := (words t).headD []

end Text

end Warboard
