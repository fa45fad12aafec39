import Understudy.Source.Parser
import Understudy.Source.Tree
import Understudy.Text.Blank

/-!
# Parsing types

A type contains other types only behind a token of its own, so types are parsed by a function
with a counter for the depth: `typeAt (n + 1)` reads one type and hands `typeAt n` to the readers
of its parts. Those readers (`params`, `structField`, …) take the reader of a nested type as an
argument and are not recursive themselves.

Two places need to look ahead. In a parameter list or struct, `a [n]T` is a name with an array
type and `G[T]` is a generic type; and in a parameter list either all entries are types or all
have names, where a bare identifier shares the type of the next name.
-/

set_option autoImplicit false

namespace Understudy.Source

open Understudy.Source.Parser

/-! ## Looking ahead -/

/-- After a name and `[`: whether the bracket belongs to the type that follows the name. Then it
is empty, or the token after its end is none of `terminators`, which end a generic type. -/
def bracketFollowsName (terminators : List Kind) (ts : List Token) : Bool :=
  ts.head?.map Token.kind == some .rbrack ||
    match Token.splitClose? 0 ts with
    | some (_, _, after :: _) => !terminators.contains after.kind
    | _ => false

/-- Whether a parameter begins with a name that is followed by its type. -/
def beginsNamedParam : List Token → Bool
  | t :: u :: us =>
    t.kind == .ident &&
      match u.kind with
      | .lbrack => bracketFollowsName [.comma, .rparen] us
      | .ellipsis => true
      | kind => kind.startsType
  | _ => false

/-- Whether a struct entry begins with the name of a field, so that it is not embedded. -/
def beginsNamedField : List Token → Bool
  | t :: u :: us =>
    t.kind == .ident &&
      match u.kind with
      | .comma => true
      | .lbrack => bracketFollowsName [.semi, .rbrace, .string, .rawString] us
      | kind => kind.startsType
  | _ => false

/-! ## Parameter lists -/

/-- An entry of a parameter list as it is written: a type, perhaps after a name. -/
abbrev ParamEntry := Option String × TypeExpr

/-- Groups entries that all have names; `pending` are bare names that wait for a type. -/
def groupNamed (pending : List String) : List ParamEntry → Option (List FieldGroup)
  | [] => if pending.isEmpty then some [] else none
  | (some name, type) :: entries =>
    (groupNamed [] entries).map (.mk (pending ++ [name]) type :: ·)
  | (none, .ident name) :: entries => groupNamed (pending ++ [name]) entries
  | (none, _) :: _ => none

/-- Groups the entries of a parameter list: all are types, or all have names. -/
def groupParams (entries : List ParamEntry) : Option (List FieldGroup) :=
  if entries.all fun entry => entry.1.isNone then
    some (entries.map fun entry => .mk [] entry.2)
  else groupNamed [] entries

/-- Reads an entry of a parameter list. -/
def paramEntry (type : Parser TypeExpr) : Parser ParamEntry := do
  let name ← if beginsNamedParam (← remaining) then some <$> ident else pure none
  if ← eat .ellipsis then return (name, .ellipsis (← type))
  else return (name, ← type)

/-- Reads a parameter list in parentheses. -/
def params (type : Parser TypeExpr) : Parser (List FieldGroup) := do
  let _ ← expect .lparen "'('"
  let entries ← commaList .rparen "',' or ')'" (paramEntry type)
  match groupParams entries with
  | some fields => return fields
  | none => fail "mixed named and unnamed parameters"

/-- Reads the results of a function, if there are any. -/
def results (type : Parser TypeExpr) : Parser (Option (List FieldGroup)) := do
  match ← peek with
  | some .lparen => return some (← params type)
  | some kind => if kind.startsType then return some [.mk [] (← type)] else return none
  | none => return none

/-- Reads the parameters and results of a function type or a method. -/
def signature (type : Parser TypeExpr) : Parser Signature := do
  let params ← params type
  return .mk [] params (← results type)

/-! ## Constraints and type parameters -/

/-- Reads a term of a constraint. -/
def typeTerm (type : Parser TypeExpr) : Parser TypeExpr := do
  if ← eat .tilde then return .tilde (← type) else type

/-- Reads a constraint: one term, or several with bars between them. -/
def typeElem (type : Parser TypeExpr) : Parser TypeExpr := do
  match ← separated .pipe (typeTerm type) with
  | [term] => return term
  | terms => return .union terms

/-- Reads type parameters up to the closing bracket; `pending` are names that wait for their
constraint. -/
def typeParamsLoop (type : Parser TypeExpr) : Nat → List String → Parser (List FieldGroup)
  | 0, _ => exhaust
  | n + 1, pending => do
    if ← eat .rbrack then
      if pending.isEmpty then return [] else fail "missing type constraint"
    else
      let pending := pending ++ [← ident]
      if ← eat .comma then typeParamsLoop type n pending
      else
        let constraint ← typeElem type
        unless ← isAt .rbrack do
          let _ ← expect .comma "',' or ']'"
        return .mk pending constraint :: (← typeParamsLoop type n [])

/-- Reads type parameters in brackets. -/
def typeParams (type : Parser TypeExpr) : Parser (List FieldGroup) := do
  let _ ← expect .lbrack "'['"
  typeParamsLoop type ((← remaining).length + 1) []

/-! ## Structs and interfaces -/

/-- Reads an entry of a struct. A tag after it is dropped. -/
def structField (type : Parser TypeExpr) : Parser FieldGroup := do
  let names ← if beginsNamedField (← remaining) then idents else pure []
  let type ← type
  match ← peek with
  | some .string | some .rawString => advance
  | _ => pure ()
  return .mk names type

/-- Reads a struct type. -/
def structType (type : Parser TypeExpr) : Parser TypeExpr := do
  let _ ← expect .kwStruct "'struct'"
  let _ ← expect .lbrace "'\x7b'"
  return .struct (← semicolonList .rbrace "';' or '\x7d'" (structField type))

/-- Whether an interface entry begins with the name of a method. -/
def beginsMethod (ts : List Token) : Bool :=
  (ts.take 2).map Token.kind == [.ident, .lparen]

/-- Reads an entry of an interface. -/
def interfaceElem (type : Parser TypeExpr) : Parser InterfaceElem := do
  if beginsMethod (← remaining) then
    let name ← ident
    return .method name (← signature type)
  else return .embedded (← typeElem type)

/-- Reads an interface type. -/
def interfaceType (type : Parser TypeExpr) : Parser TypeExpr := do
  let _ ← expect .kwInterface "'interface'"
  let _ ← expect .lbrace "'\x7b'"
  return .interface (← semicolonList .rbrace "';' or '\x7d'" (interfaceElem type))

/-! ## Types -/

/-- Reads a type name, perhaps of another package, and the arguments of a generic type. -/
def typeName (type : Parser TypeExpr) : Parser TypeExpr := do
  let first ← ident
  let base ← if ← eat .dot then TypeExpr.qualified first <$> ident else pure (.ident first)
  if ← eat .lbrack then
    return .instantiated base (← commaList .rbrack "',' or ']'" type)
  else return base

/-- Reads an array or slice type. The length is kept as text. -/
def arrayType (type : Parser TypeExpr) : Parser TypeExpr := do
  let _ ← expect .lbrack "'['"
  if ← eat .rbrack then return .array none (← type)
  match Token.splitClose? 0 (← remaining) with
  | none => fail "unbalanced '['"
  | some (run, close, rest) =>
    let length := String.ofList (Text.trim (Token.inner run close).toList)
    continueAt rest
    return .array (some (.literal length)) (← type)

/-- Reads a type of no known form: a balanced run of tokens up to the end of a list entry. -/
def unsupportedType : Parser TypeExpr := do
  match Token.splitBalanced [.comma, .semi, .pipe] 0 (← remaining) with
  | ([], _) => fail "expected type"
  | (run, rest) =>
    continueAt rest
    return .unsupported (Token.spell run)

/-- Reads a type whose parts are at most `n` levels deep. -/
def typeAt : Nat → Parser TypeExpr
  | 0 => exhaust
  | n + 1 => do
    match ← peek with
    | none => fail "expected type"
    | some .ident => typeName (typeAt n)
    | some .star =>
      advance
      return .pointer (← typeAt n)
    | some .lbrack => arrayType (typeAt n)
    | some .lparen =>
      advance
      let inner ← typeAt n
      let _ ← expect .rparen "')'"
      return inner
    | some .kwFunc =>
      advance
      return .func (← signature (typeAt n))
    | some .kwMap =>
      advance
      let _ ← expect .lbrack "'['"
      let key ← typeAt n
      let _ ← expect .rbrack "']'"
      return .map key (← typeAt n)
    | some .kwChan =>
      advance
      let dir := if ← eat .arrow then ChanDir.send else ChanDir.both
      return .chan dir (← typeAt n)
    | some .arrow =>
      advance
      let _ ← expect .kwChan "'chan'"
      return .chan .recv (← typeAt n)
    | some .kwStruct => structType (typeAt n)
    | some .kwInterface => interfaceType (typeAt n)
    | some _ => unsupportedType

/-- Reads a type. Each level of a type has a token of its own, so the number of tokens bounds the
depth. -/
def typeExpr : Parser TypeExpr := do typeAt ((← remaining).length + 1)

end Understudy.Source
