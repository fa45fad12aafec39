import Understudy.Text.Utf8

/-!
# Positions in a source text

A syntax error names a line and a column, both counted from one. Lines end at line feeds only,
and a column counts characters, not bytes. Offsets count bytes, so a position is found from the
characters before an offset.
-/

set_option autoImplicit false

namespace Understudy.Source

open Text

/-- What is wrong with a source text, and where. -/
structure SyntaxError where
  line : Nat
  column : Nat
  message : String
  deriving Repr, DecidableEq

namespace SyntaxError

/-- The line of the character that follows the text `before`. -/
def lineAfter (before : List Char) : Nat := before.count '\n' + 1

/-- The column of the character that follows the text `before`. -/
def columnAfter (before : List Char) : Nat :=
  (before.reverse.takeWhile (· != '\n')).length + 1

/-- An error at the byte `offset` of the source text. -/
def atOffset (source : String) (offset : Nat) (message : String) : SyntaxError :=
  let before := takeBytes offset source.toList
  { line := lineAfter before, column := columnAfter before, message }

/-- The error with its position in front. -/
def text (e : SyntaxError) : String :=
  toString e.line ++ ":" ++ toString e.column ++ ": " ++ e.message

end SyntaxError

end Understudy.Source
