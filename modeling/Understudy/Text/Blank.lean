import Understudy.Text.Ranges

/-!
# Blank characters

The property `White_Space`, and the three ways of removing blanks from the ends of a text. The
class is wider than the blanks between the tokens of a source file: it holds the line
separators and the spaces of every width.
-/

set_option autoImplicit false

namespace Understudy.Text

/-- Code points with the property `White_Space`. -/
def blanks : Ranges := [
  (0x9, 0xd), (0x20, 0x20), (0x85, 0x85), (0xa0, 0xa0), (0x1680, 0x1680), (0x2000, 0x200a),
  (0x2028, 0x2029), (0x202f, 0x202f), (0x205f, 0x205f), (0x3000, 0x3000)]

/-- The property `White_Space`. -/
def isBlank (c : Char) : Bool := blanks.has c.toNat

/-- The text without its leading blanks. -/
def trimStart (cs : List Char) : List Char := cs.dropWhile isBlank

/-- The text without its trailing blanks. -/
def trimEnd (cs : List Char) : List Char := (cs.reverse.dropWhile isBlank).reverse

/-- The text without the blanks at either end. -/
def trim (cs : List Char) : List Char := trimEnd (trimStart cs)

end Understudy.Text
