import Understudy.Source.Kind
import Understudy.Text.Alphabetic
import Understudy.Text.Uppercase

/-!
# Identifiers

Names that are not read from source text: the parts of an override key and of an import path.
They are judged by the derived character properties, which are wider than the classes that the
tokens of a source file are made of.
-/

set_option autoImplicit false

namespace Understudy.Source

open Text

/-- Whether a name is a keyword, so that it can name nothing. -/
def isReserved (name : String) : Bool := (Kind.keywords.map Prod.fst).contains name

/-- Whether a name is visible outside its package: its first character is upper case. -/
def isExported (name : String) : Bool :=
  match name.toList with
  | [] => false
  | c :: _ => isUppercase c

/-- Whether `c` may stand in an identifier after the first character. -/
def isIdentifierChar (c : Char) : Bool := c == '_' || isAlphanumeric c

/-- Whether a text is an identifier and no keyword. -/
def isIdentifier (s : String) : Bool :=
  match s.toList with
  | [] => false
  | c :: cs => (c == '_' || isAlphabetic c) && cs.all isIdentifierChar && !isReserved s

end Understudy.Source
