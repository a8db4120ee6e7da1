import LetStack.Text.Ranges

/-! Characters that are ignored around a text, and the removal of them. -/

namespace LetStack

/-- The code points with Unicode's property "white space". -/
def spaceRanges : List (Nat × Nat) := [
  (0x9, 0xd), (0x20, 0x20), (0x85, 0x85), (0xa0, 0xa0), (0x1680, 0x1680), (0x2000, 0x200a),
  (0x2028, 0x2029), (0x202f, 0x202f), (0x205f, 0x205f), (0x3000, 0x3000)]

def isSpace (char : Char) : Bool := inRanges spaceRanges char.toNat

/-- White space, and the four information separators of ASCII. -/
def isBlank (char : Char) : Bool := isSpace char || inRanges [(0x1c, 0x1f)] char.toNat

def dropRightWhile (drop : Char → Bool) (chars : List Char) : List Char :=
  (chars.reverse.dropWhile drop).reverse

def strip (drop : Char → Bool) (chars : List Char) : List Char :=
  dropRightWhile drop (chars.dropWhile drop)

def stripBlank (text : String) : String := String.ofList (strip isBlank text.toList)

end LetStack
