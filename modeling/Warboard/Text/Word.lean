import Warboard.Text.Alphabetic
import Warboard.Text.Blank
import Warboard.Text.Digit
import Warboard.Text.Mark
import Warboard.Text.Recent

namespace Warboard.Text

/-- `_` and the characters that tie words together as it does. -/
def connectorRanges : List (Nat × Nat) :=
  [(0x5F, 0x5F), (0x203F, 0x2040), (0x2054, 0x2054), (0xFE33, 0xFE34), (0xFE4D, 0xFE4F),
   (0xFF3F, 0xFF3F)]

/-- The two invisible joiners. -/
def joinerRanges : List (Nat × Nat) := [(0x200C, 0x200D)]

/-- The characters of a name, as version 16 of the Unicode standard has them. -/
def isWord (c : Char) : Bool :=
  if c.val < 128 then c.isAlphanum || c = '_'
  else !isRecent c && (isAlphabetic c || isMark c || isDigit c ||
    within connectorRanges c.toNat || within joinerRanges c.toNat)

/-- The digits of a number that stands in a line, as the same version has them. -/
def isWordDigit (c : Char) : Bool := isDigit c && !isRecent c

/-- The letters and numbers of the newest version. -/
def isAlphanumeric (c : Char) : Bool := isAlphabetic c || isNumeric c

end Warboard.Text
