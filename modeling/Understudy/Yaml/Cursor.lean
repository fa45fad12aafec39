/-!
# Cursors

A place in a YAML text: the characters that are left, and where they stand. Indentation decides
the structure of block collections, so the column is always at hand.
-/

set_option autoImplicit false

namespace Understudy.Yaml

/-- A place in a text. -/
structure Cursor where
  rest : List Char
  index : Nat
  line : Nat
  column : Nat

/-- Whether `c` is a space or a tab. -/
def isBlank (c : Char) : Bool := c == ' ' || c == '\t'

/-- Whether `c` ends a line. -/
def isBreak (c : Char) : Bool :=
  c == '\n' || c == '\r' || c == '\u0085' || c == '\u2028' || c == '\u2029'

/-- Whether `c` may stand in a text at all. -/
def isAdmissible (c : Char) : Bool :=
  let n := c.toNat
  n == 0x9 || n == 0xa || n == 0xd || (0x20 ≤ n && n ≤ 0x7e) || n == 0x85 ||
    (0xa0 ≤ n && n ≤ 0xfffd) || 0x10000 ≤ n

namespace Cursor

/-- The beginning of a text. -/
def ofText (cs : List Char) : Cursor := { rest := cs, index := 0, line := 0, column := 0 }

/-- The next character. -/
def peek (c : Cursor) : Option Char := c.rest.head?

/-- The character `n` places further on. -/
def peekAt (c : Cursor) (n : Nat) : Option Char := c.rest[n]?

/-- Whether the next character is `ch`. -/
def isAt (c : Cursor) (ch : Char) : Bool := c.peek == some ch

/-- Whether the next character is a space or a tab. -/
def isAtBlank (c : Cursor) : Bool := c.peek.any isBlank

/-- Whether a line ends here. -/
def isAtBreak (c : Cursor) : Bool := c.peek.any isBreak

/-- Whether the text ends here. -/
def isAtEnd (c : Cursor) : Bool := c.rest.isEmpty

/-- Whether a word ends `n` places further on: by a blank, a line end or the end of the text. -/
def isGapAt (c : Cursor) (n : Nat) : Bool := (c.peekAt n).all fun ch => isBlank ch || isBreak ch

/-- Steps over one character that ends no line. -/
def skip (c : Cursor) : Cursor :=
  { c with rest := c.rest.tail, index := c.index + 1, column := c.column + 1 }

/-- Steps over a byte order mark at the beginning of a line. It takes up a column. -/
def skipOrderMark (c : Cursor) : Cursor :=
  if c.column == 0 && c.isAt '\uFEFF' then c.skip else c

/-- Steps over some characters that end no line. -/
def skipMany (c : Cursor) : Nat → Cursor
  | 0 => c
  | n + 1 => c.skip.skipMany n

/-- Steps over the end of a line. -/
def skipBreak (c : Cursor) : Cursor :=
  match c.rest with
  | '\r' :: '\n' :: rest =>
    { rest, index := c.index + 2, line := c.line + 1, column := 0 }
  | ch :: rest =>
    if isBreak ch then { rest, index := c.index + 1, line := c.line + 1, column := 0 } else c
  | [] => c

/-- The text that the end of a line stands for in a scalar. -/
def breakText (c : Cursor) : List Char :=
  match c.peek with
  | some '\u2028' => ['\u2028']
  | some '\u2029' => ['\u2029']
  | some ch => if isBreak ch then ['\n'] else []
  | none => []

/-- Whether a mark between documents stands here: three equal characters alone at the beginning
of a line. -/
def isAtMark (c : Cursor) (ch : Char) : Bool :=
  c.column == 0 && c.rest.take 3 == [ch, ch, ch] && c.isGapAt 3

/-- Whether any mark between documents stands here. -/
def isAtAnyMark (c : Cursor) : Bool := c.isAtMark '-' || c.isAtMark '.'

/-- Steps over the rest of a line. -/
def skipLineRest (c : Cursor) : Cursor :=
  c.skipMany (c.rest.takeWhile fun ch => !isBreak ch).length

end Cursor

end Understudy.Yaml
