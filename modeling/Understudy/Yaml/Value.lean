import Understudy.Yaml.Node

/-!
# Values

What stands at a place of a document where a value of a certain kind is expected. A node of
another kind has no value.
-/

set_option autoImplicit false

namespace Understudy.Yaml

namespace Node

/-! ## Scalars -/

/-- Whether a plain scalar with a text stands for no value. -/
def isNullText (text : String) : Bool :=
  text == "~" || text == "null" || text == "Null" || text == "NULL"

/-- A tag that the language itself defines. -/
def standardTag (name : String) : Tag := Tag.ofText ("tag:yaml.org,2002:" ++ name)

/-- The text of a scalar, however it is written. -/
def text? : Node → Option String
  | scalar _ _ text => some text
  | _ => none

/-- Whether a scalar is written in a way that allows a truth value. -/
def allowsBool : Style → Option Tag → Bool
  | .plain, _ => true
  | .literal, tag => tag == some (standardTag "bool")
  | _, _ => false

/-- A truth value. -/
def bool? : Node → Option Bool
  | scalar style tag text =>
    if !allowsBool style tag then none
    else if text == "true" || text == "True" || text == "TRUE" then some true
    else if text == "false" || text == "False" || text == "FALSE" then some false
    else none
  | _ => none

/-- The name that a tag of its own spells: the text behind an exclamation mark. -/
def tagName? : Option Tag → Option String
  | some (33 :: name) => String.fromUTF8? ⟨name.toArray⟩
  | _ => none

/-- A name out of a fixed set: the text of a scalar, or a tag of its own on an empty one. -/
def name? : Node → Option String
  | scalar style tag text =>
    match tagName? tag with
    | some name =>
      if style == .plain && (text.isEmpty || isNullText text) then some name else none
    | none => some text
  | _ => none

/-- A value that may be left out: by writing nothing or a null. -/
def optional? {α : Type} (read : Node → Option α) : Node → Option (Option α)
  | scalar .plain none text =>
    if text.isEmpty || isNullText text then some none
    else (read (.scalar .plain none text)).map some
  | scalar .plain (some tag) text =>
    if tag == standardTag "null" then if isNullText text then some none else none
    else (read (.scalar .plain (some tag) text)).map some
  | n => (read n).map some

/-! ## Collections -/

/-- Whether nothing is written at all. -/
def isEmptyPlain : Node → Bool
  | scalar .plain _ text => text.isEmpty
  | _ => false

/-- The entries of a sequence. -/
def items? : Node → Option (List Node)
  | sequence items => some items
  | n => if n.isEmptyPlain then some [] else none

/-- The entries of a mapping. -/
def entries? : Node → Option (List (Node × Node))
  | mapping entries => some entries
  | n => if n.isEmptyPlain then some [] else none

end Node

namespace Document

/-! ## Places of a document -/

/-- The text at a place. -/
def textAt? (d : Document) (place : Node) : Option String := do (← d.at? place).text?

/-- The value at a place, if it is not left out. -/
def optionalAt? {α : Type} (d : Document) (read : Node → Option α) (place : Node) :
    Option (Option α) := do
  (← d.at? place).optional? read

/-- The list of texts at a place. -/
def textsAt? (d : Document) (place : Node) : Option (List String) := do
  (← (← d.at? place).items?).mapM d.textAt?

/-- The mapping of texts to texts at a place, in the order of the file. -/
def textEntriesAt? (d : Document) (place : Node) : Option (List (String × String)) := do
  (← (← d.at? place).entries?).mapM fun (key, value) =>
    return (← d.textAt? key, ← d.textAt? value)

end Document

end Understudy.Yaml
