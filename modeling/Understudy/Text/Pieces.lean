import Understudy.Text.Blank

/-!
# Cutting texts apart

Three ways to take a text apart: at every character of a class (`pieces`), at the first
occurrence of a separator (`cut?`), and into the runs between blanks (`words`). The first also takes
bytes apart.
-/

set_option autoImplicit false

namespace Understudy.Text

/-- The pieces between the elements that satisfy `p`. There is always one more piece than
there are such elements, so the empty list has one empty piece. -/
def pieces {α : Type} (p : α → Bool) : List α → List (List α)
  | [] => [[]]
  | c :: cs =>
    if p c then [] :: pieces p cs
    else
      match pieces p cs with
      | [] => [[c]]
      | w :: ws => (c :: w) :: ws

/-- What stands before and after the first occurrence of `sep`. -/
def cut? (sep : List Char) : List Char → Option (List Char × List Char)
  | [] => none
  | c :: cs =>
    match sep.isPrefixOf? (c :: cs) with
    | some after => some ([], after)
    | none => (cut? sep cs).map fun (before, after) => (c :: before, after)

/-- The last piece, after the last character that satisfies `p`. -/
def lastPiece (p : Char → Bool) (cs : List Char) : List Char :=
  (pieces p cs).getLastD []

/-- The maximal runs without blanks. -/
def words (cs : List Char) : List (List Char) :=
  (pieces isBlank cs).filter fun w => !w.isEmpty

end Understudy.Text
