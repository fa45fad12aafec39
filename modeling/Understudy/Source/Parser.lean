import Understudy.Source.Token

/-!
# Parsers of token lists

A parser reads tokens from the front of a list and leaves the rest. When it gives up it names
what it expected and keeps the tokens it had not read, which is all that a message needs.

Lists that run up to a closing token are read with a counter that starts above the number of
tokens left, since each round reads at least one. The counter never reaches zero; should it do
so, the fault `exhausted` would say it.
-/

set_option autoImplicit false

namespace Understudy.Source

/-- Why a parser gave up. -/
inductive ParseFault where
  /-- A statement of what was expected, in front of the tokens `rest`. -/
  | unmet (message : String) (rest : List Token)
  /-- A counter reached zero. -/
  | exhausted
  deriving Repr, DecidableEq

/-- A parser reads a value from the front of a token list. -/
def Parser (α : Type) := List Token → Except ParseFault (α × List Token)

namespace Parser

variable {α β : Type}

instance : Monad Parser where
  pure a ts := .ok (a, ts)
  bind p f ts :=
    match p ts with
    | .ok (a, rest) => f a rest
    | .error fault => .error fault

/-- The tokens that are left. -/
def remaining : Parser (List Token) := fun ts => .ok (ts, ts)

/-- Goes on at other tokens. -/
def continueAt (rest : List Token) : Parser Unit := fun _ => .ok ((), rest)

/-- Gives up in front of the current token. -/
def fail (message : String) : Parser α := fun ts => .error (.unmet message ts)

/-- Gives up because a counter reached zero. -/
def exhaust : Parser α := fun _ => .error .exhausted

/-- The kind of the current token. -/
def peek : Parser (Option Kind) := fun ts => .ok (ts.head?.map Token.kind, ts)

/-- Reads one token of any kind. -/
def advance : Parser Unit := fun ts => .ok ((), ts.tail)

/-- Whether the current token is of a kind. -/
def isAt (kind : Kind) : Parser Bool := fun ts => .ok (ts.head?.map Token.kind == some kind, ts)

/-- Reads the current token if it is of a kind. -/
def eat (kind : Kind) : Parser Bool
  | t :: ts => if t.kind == kind then .ok (true, ts) else .ok (false, t :: ts)
  | [] => .ok (false, [])

/-- Reads a token that has to be of a kind. -/
def expect (kind : Kind) (what : String) : Parser Token
  | t :: ts => if t.kind == kind then .ok (t, ts) else fail ("expected " ++ what) (t :: ts)
  | [] => fail ("expected " ++ what) []

/-- Reads an identifier. -/
def ident : Parser String := do return (← expect .ident "identifier").text

/-! ## Lists -/

/-- Reads further items, each after a separator. -/
def separatedTail (sep : Kind) (item : Parser α) : Nat → Parser (List α)
  | 0 => exhaust
  | n + 1 => do
    if ← eat sep then
      let first ← item
      return first :: (← separatedTail sep item n)
    else return []

/-- Reads one or more items with separators between them. -/
def separated (sep : Kind) (item : Parser α) : Parser (List α) := do
  let first ← item
  return first :: (← separatedTail sep item ((← remaining).length + 1))

/-- Reads one or more identifiers with commas between them. -/
def idents : Parser (List String) := separated .comma ident

/-- Reads items up to and including a closing token, with commas between them. A comma may stand
before the closing token. -/
def commaListLoop (close : Kind) (what : String) (item : Parser α) : Nat → Parser (List α)
  | 0 => exhaust
  | n + 1 => do
    if ← eat close then return []
    let first ← item
    unless ← isAt close do
      let _ ← expect .comma what
    return first :: (← commaListLoop close what item n)

@[inherit_doc commaListLoop]
def commaList (close : Kind) (what : String) (item : Parser α) : Parser (List α) := do
  commaListLoop close what item ((← remaining).length + 1)

/-- Reads items up to and including a closing token, with semicolons between them. Any number of
semicolons may stand before an item and before the closing token. -/
def semicolonListLoop (close : Kind) (what : String) (item : Parser α) : Nat → Parser (List α)
  | 0 => exhaust
  | n + 1 => do
    if ← eat close then return []
    if ← eat .semi then semicolonListLoop close what item n
    else
      let first ← item
      unless ← isAt close do
        let _ ← expect .semi what
      return first :: (← semicolonListLoop close what item n)

@[inherit_doc semicolonListLoop]
def semicolonList (close : Kind) (what : String) (item : Parser α) : Parser (List α) := do
  semicolonListLoop close what item ((← remaining).length + 1)

end Parser

/-! ## Balanced runs of tokens

Bodies, initializers and array lengths are not parsed. Where they end is found by counting
brackets, whatever their shape. -/

namespace Token

/-- Splits at the token that closes a bracket opened just before `ts`, with `depth` more brackets
open inside. -/
def splitClose? (depth : Nat) : List Token → Option (List Token × Token × List Token)
  | [] => none
  | t :: ts =>
    if t.kind.opens then (splitClose? (depth + 1) ts).map fun (run, rest) => (t :: run, rest)
    else if t.kind.closes then
      match depth with
      | 0 => some ([], t, ts)
      | depth + 1 => (splitClose? depth ts).map fun (run, rest) => (t :: run, rest)
    else (splitClose? depth ts).map fun (run, rest) => (t :: run, rest)

/-- Splits before the first token outside brackets that closes a bracket or is one of the
delimiters, with `depth` brackets open so far. -/
def splitBalanced (delimiters : List Kind) (depth : Nat) : List Token → List Token × List Token
  | [] => ([], [])
  | t :: ts =>
    if t.kind.opens then
      let (run, rest) := splitBalanced delimiters (depth + 1) ts
      (t :: run, rest)
    else if t.kind.closes then
      match depth with
      | 0 => ([], t :: ts)
      | depth + 1 =>
        let (run, rest) := splitBalanced delimiters depth ts
        (t :: run, rest)
    else if depth == 0 && delimiters.contains t.kind then ([], t :: ts)
    else
      let (run, rest) := splitBalanced delimiters depth ts
      (t :: run, rest)

end Token

end Understudy.Source
