import MemoPeg.Text.Alphabetic
import MemoPeg.Text.Numeric

/-!
The three character classes that matchers name: alphabetic characters, numeric characters and white
space, each as Unicode defines it.
-/

namespace MemoPeg.Text

/-- Code points with the property White_Space. -/
def whiteSpace : Ranges := [
  (0x9, 0xD), (0x20, 0x20), (0x85, 0x85), (0xA0, 0xA0), (0x1680, 0x1680), (0x2000, 0x200A),
  (0x2028, 0x2029), (0x202F, 0x202F), (0x205F, 0x205F), (0x3000, 0x3000)
]

end MemoPeg.Text

namespace MemoPeg

inductive CharClass where
  | alphabetic
  | numeric
  | whiteSpace
deriving DecidableEq, Repr

def CharClass.ranges : CharClass → Ranges
  | .alphabetic => Text.alphabetic
  | .numeric => Text.numeric
  | .whiteSpace => Text.whiteSpace

def CharClass.contains (k : CharClass) (c : Char) : Bool := k.ranges.contains c

end MemoPeg
