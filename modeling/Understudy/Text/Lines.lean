/-!
# Lines

A line ends at a line feed, and a carriage return directly before that line feed belongs to the
line end. A carriage return anywhere else is part of its line. The text after the last line feed
is a line only if it is not empty.
-/

set_option autoImplicit false

namespace Understudy.Text

/-- The lines of a text, without their ends. -/
def lines : List Char → List (List Char)
  | [] => []
  | '\n' :: cs => [] :: lines cs
  | '\r' :: '\n' :: cs => [] :: lines cs
  | c :: cs =>
    match lines cs with
    | [] => [[c]]
    | l :: ls => (c :: l) :: ls

end Understudy.Text
