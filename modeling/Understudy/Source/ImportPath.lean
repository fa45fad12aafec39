import Understudy.Source.Identifier
import Understudy.Source.Tree
import Understudy.Text.Pieces

/-!
# Import paths

What an import path says about the package behind it: the name that the package is assumed to
have, the name that an import binds, and whether the package belongs to the standard library.
-/

set_option autoImplicit false

namespace Understudy.Source

open Text

/-- The elements of an import path, between slashes. -/
def pathElems (path : String) : List (List Char) := pieces (· == '/') path.toList

/-- Whether a path element is a major version: `v` and digits. -/
def isVersionElem : List Char → Bool
  | 'v' :: digits => !digits.isEmpty && digits.all Char.isDigit
  | _ => false

/-- The path element that names the package: the last one, or the one before a major version. -/
def namingElem (path : String) : List Char :=
  match (pathElems path).reverse with
  | last :: previous :: _ => if isVersionElem last then previous else last
  | [last] => last
  | [] => []

/-- The package name that a path suggests: its naming element without a leading `go-`, up to the
first character that no identifier has. -/
def assumedPackageName (path : String) : String :=
  let elem := namingElem path
  String.ofList ((("go-".toList.isPrefixOf? elem).getD elem).takeWhile isIdentifierChar)

/-- The name that an import binds in its file: the given name, or else the last element of the
path if it is an identifier, or else the assumed package name. Blank and dot imports bind
nothing. -/
def Import.boundName? (i : Import) : Option String :=
  match i.name with
  | some name => if name == "_" || name == "." then none else some name
  | none =>
    let last := String.ofList (lastPiece (· == '/') i.path.toList)
    if isIdentifier last then some last
    else
      let assumed := assumedPackageName i.path
      if assumed.isEmpty then none else some assumed

/-- Whether a path belongs to the standard library: its first element has no dot. -/
def isStandardPath (path : String) : Bool :=
  path != "C" && !((pathElems path).headD []).contains '.'

end Understudy.Source
