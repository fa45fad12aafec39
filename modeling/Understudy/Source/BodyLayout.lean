import Understudy.Text.Blank
import Understudy.Text.Lines

/-!
# The layout of function bodies

Bodies are not parsed, so they are laid out by lines: blank lines at both ends are dropped, the
indentation that all lines share is replaced by one tab, and what a line has beyond it is kept.
Only spaces and tabs are indentation; every blank at the end of a line is removed.
-/

set_option autoImplicit false

namespace Understudy.Source

open Text

/-- The spaces and tabs that a line begins with. -/
def indentation (line : List Char) : List Char := line.takeWhile fun c => c == ' ' || c == '\t'

/-- The longest text that both texts begin with. -/
def commonStart : List Char → List Char → List Char
  | a :: as, b :: bs => if a == b then a :: commonStart as bs else []
  | _, _ => []

/-- The lines of a body without trailing blanks, from the first to the last that is not empty. -/
def coreLines (body : List Char) : List (List Char) :=
  let bare := (((lines body).map trimEnd).dropWhile List.isEmpty)
  (bare.reverse.dropWhile List.isEmpty).reverse

/-- The indentation that all non-empty lines share. -/
def sharedIndentation (ls : List (List Char)) : List Char :=
  match (ls.filter fun l => !l.isEmpty).map indentation with
  | [] => []
  | first :: rest => rest.foldl commonStart first

/-- A line of a body with one tab instead of the shared indentation. Empty lines stay empty. -/
def indentLine (shared line : List Char) : List Char :=
  if line.isEmpty then [] else '\t' :: line.drop shared.length

/-- The text between the braces of a body that is laid out. -/
def layoutInner (body : List Char) : List Char :=
  match coreLines body with
  | [] => if body.contains '\n' then ['\n'] else []
  | ls => '\n' :: ls.flatMap fun l => indentLine (sharedIndentation ls) l ++ ['\n']

/-- A body with its braces, laid out. -/
def layoutBody (body : String) : String :=
  String.ofList ('{' :: layoutInner body.toList ++ ['}'])

end Understudy.Source
