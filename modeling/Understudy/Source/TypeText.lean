import Understudy.Source.Tree

/-!
# The text of types

Types are written in one of two ways. *Verbatim* writes every type as it is. *Erasing* keeps only
references to some packages: a type of any other package becomes the empty interface, and so does
every pointer to it and every instance of it. Inside a struct a first embedded field that is
erased becomes the sentinel type, further ones are left out, since a struct cannot embed a type
twice; of an interface only the methods are kept.

Whether a type is erased is read off its text, so a type that is written as the empty interface
and a type that becomes it look alike from outside. Only `erases` tells them apart.
-/

set_option autoImplicit false

namespace Understudy.Source

/-- The type that stands in for every type of a package that may not be imported. -/
def opaqueType : String := "interface\x7b\x7d"

/-- The type that stands in for an embedded field whose type is erased. -/
def embedSentinel : String := "Embedme"

/-- Which references to other packages are written. -/
inductive Fidelity where
  /-- All of them. -/
  | verbatim
  /-- Those to the packages that are known under the given names. -/
  | erasing (kept : List String)
  deriving Repr, DecidableEq

namespace Fidelity

/-- Whether some references may be erased. -/
def isErasing : Fidelity → Bool
  | verbatim => false
  | erasing _ => true

/-- Whether references to a package are written. -/
def keeps (package : String) : Fidelity → Bool
  | verbatim => true
  | erasing kept => kept.contains package

end Fidelity

/-- The text of some names of one type. -/
def fieldText (names : List String) (type : String) : String :=
  if names.isEmpty then type else String.intercalate ", " names ++ " " ++ type

mutual

/-- The text of a type. -/
def renderType (f : Fidelity) : TypeExpr → String
  | .ident name => name
  | .qualified package name =>
    if f.keeps package then package ++ "." ++ name else opaqueType
  | .pointer elem =>
    let inner := renderType f elem
    if f.isErasing && inner == opaqueType then inner else "*" ++ inner
  | .array length elem => "[" ++ renderLength f length ++ "]" ++ renderType f elem
  | .ellipsis elem => "..." ++ renderType f elem
  | .func signature => "func" ++ renderSignature f signature
  | .map key value => "map[" ++ renderType f key ++ "]" ++ renderType f value
  | .chan .send elem => "chan<- " ++ renderType f elem
  | .chan .recv elem => "<-chan " ++ renderType f elem
  | .chan .both elem =>
    let inner := renderType f elem
    -- Without parentheses the arrow would belong to the outer channel.
    match elem with
    | .chan .recv _ => "chan (" ++ inner ++ ")"
    | _ => "chan " ++ inner
  | .literal text => text
  | .struct [] => "struct\x7b\x7d"
  | .struct (field :: fields) =>
    "struct\x7b " ++ String.intercalate "; " (structLines f false (field :: fields)) ++ " \x7d"
  | .interface elems =>
    match interfaceLines f elems with
    | [] => opaqueType
    | lines => "interface\x7b " ++ String.intercalate "; " lines ++ " \x7d"
  | .instantiated base args =>
    let text := renderType f base
    if f.isErasing && text == opaqueType then text
    else text ++ "[" ++ String.intercalate ", " (renderTypes f args) ++ "]"
  | .union terms => String.intercalate " | " (renderTypes f terms)
  | .tilde elem => "~" ++ renderType f elem
  | .unsupported text => if f.isErasing then opaqueType else text

/-- The text of an array length; empty for a slice. -/
def renderLength (f : Fidelity) : Option TypeExpr → String
  | none => ""
  | some length => renderType f length

/-- The texts of some types. -/
def renderTypes (f : Fidelity) : List TypeExpr → List String
  | [] => []
  | type :: types => renderType f type :: renderTypes f types

/-- The texts of some fields. -/
def renderFields (f : Fidelity) : List FieldGroup → List String
  | [] => []
  | .mk names type :: fields => fieldText names (renderType f type) :: renderFields f fields

/-- The results with a space before them; nothing without results. Verbatim text has parentheses
only where they are needed. -/
def renderResults (f : Fidelity) : Option (List FieldGroup) → String
  | none => ""
  | some [] => if f.isErasing then " ()" else ""
  | some (.mk names type :: fields) =>
    let first := renderType f type
    if !f.isErasing && names.isEmpty && fields.isEmpty then " " ++ first
    else
      " (" ++ String.intercalate ", " (fieldText names first :: renderFields f fields) ++ ")"

/-- The parameters and results of a signature. -/
def renderSignature (f : Fidelity) : Signature → String
  | .mk _ params results =>
    "(" ++ String.intercalate ", " (renderFields f params) ++ ")" ++ renderResults f results

/-- The entries of a struct. The flag says that the sentinel has been used. -/
def structLines (f : Fidelity) (used : Bool) : List FieldGroup → List String
  | [] => []
  | .mk names type :: fields =>
    let text := renderType f type
    if names.isEmpty && f.isErasing && text == opaqueType &&
        renderType .verbatim type != opaqueType then
      if used then structLines f true fields else embedSentinel :: structLines f true fields
    else fieldText names text :: structLines f used fields

/-- The entries of an interface. -/
def interfaceLines (f : Fidelity) : List InterfaceElem → List String
  | [] => []
  | .method name signature :: elems =>
    (name ++ renderSignature f signature) :: interfaceLines f elems
  | .embedded type :: elems =>
    if f.isErasing then interfaceLines f elems else renderType f type :: interfaceLines f elems

end

/-- Whether a type as a whole becomes the empty interface without being written as one. -/
def erases (f : Fidelity) (type : TypeExpr) : Bool :=
  f.isErasing && renderType f type == opaqueType && renderType .verbatim type != opaqueType

/-- The text of a parameter list, without parentheses. -/
def renderParams (f : Fidelity) (fields : List FieldGroup) : String :=
  String.intercalate ", " (renderFields f fields)

/-- The text of type parameters in brackets; nothing without type parameters. -/
def renderTypeParams (f : Fidelity) (fields : List FieldGroup) : String :=
  if fields.isEmpty then "" else "[" ++ renderParams f fields ++ "]"

end Understudy.Source
