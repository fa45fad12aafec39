import Understudy.Text.Alphabetic
import Understudy.Text.Blank
import Understudy.Text.Quoted

/-!
# Build constraints

A build constraint is a boolean expression over tags. It is read into a tree, in which `!` binds
closest and `&&` closer than `||`, and then evaluated for the tags that hold.
-/

set_option autoImplicit false

namespace Understudy.Modules

open Text

/-- A boolean expression over tags. -/
inductive Constraint where
  | tag (name : String)
  | not (c : Constraint)
  | and (left right : Constraint)
  | or (left right : Constraint)
  deriving Repr, DecidableEq

namespace Constraint

/-- The value of a constraint when `holds` tells which tags hold. -/
def eval (holds : String → Bool) : Constraint → Bool
  | tag name => holds name
  | not c => !eval holds c
  | and left right => eval holds left && eval holds right
  | or left right => eval holds left || eval holds right

/-! ## Signs -/

/-- A sign of the text of a constraint. -/
inductive Sign where
  | tag (name : String)
  | not
  | and
  | or
  | lparen
  | rparen
  deriving Repr, DecidableEq

/-- The name of a sign in messages. -/
def Sign.label : Sign → String
  | tag name => "Tag(" ++ quote name ++ ")"
  | not => "Not"
  | and => "And"
  | or => "Or"
  | lparen => "Open"
  | rparen => "Close"

/-- Why a text is no constraint. -/
inductive Fault where
  /-- The text goes on with a character that begins no sign. -/
  | invalidCharacter (rest : String)
  | unexpected (sign : Sign)
  | unexpectedEnd
  | missingParen
  deriving Repr, DecidableEq

/-- The wording of a fault. -/
def Fault.message : Fault → String
  | invalidCharacter rest => "invalid character in build constraint: " ++ quote rest
  | unexpected sign => "unexpected " ++ sign.label ++ " in build constraint"
  | unexpectedEnd => "unexpected end of build constraint"
  | missingParen => "missing ')' in build constraint"

/-- Whether `c` may stand in a tag. -/
def isTagChar (c : Char) : Bool := isAlphanumeric c || c == '_' || c == '.'

/-- The signs of a text. -/
def signs : List Char → Except Fault (List Sign)
  | [] => .ok []
  | '&' :: '&' :: cs => (signs cs).map (.and :: ·)
  | '|' :: '|' :: cs => (signs cs).map (.or :: ·)
  | '!' :: cs => (signs cs).map (.not :: ·)
  | '(' :: cs => (signs cs).map (.lparen :: ·)
  | ')' :: cs => (signs cs).map (.rparen :: ·)
  | c :: cs =>
    if isBlank c then signs cs
    else if isTagChar c then
      (signs (cs.dropWhile isTagChar)).map
        (.tag (String.ofList (c :: cs.takeWhile isTagChar)) :: ·)
    else .error (.invalidCharacter (String.ofList (c :: cs)))
termination_by cs => cs.length
decreasing_by
  all_goals simp only [List.length_cons]
  all_goals try omega
  exact Nat.lt_succ_of_le (List.dropWhile_sublist isTagChar).length_le

/-! ## Reading the tree -/

/-- Reads a constraint from the front of some signs. -/
abbrev Reader := List Sign → Except Fault (Constraint × List Sign)

/-- Reads further operands, each after `op`, and combines them from left to right. There are at
most as many as there are signs. -/
def chainTail (op : Sign) (combine : Constraint → Constraint → Constraint) (operand : Reader) :
    Nat → Constraint → Reader
  | 0, left, ss => .ok (left, ss)
  | n + 1, left, s :: ss =>
    if s == op then do
      let (right, rest) ← operand ss
      chainTail op combine operand n (combine left right) rest
    else .ok (left, s :: ss)
  | _ + 1, left, [] => .ok (left, [])

/-- Reads operands with `op` between them. -/
def chain (op : Sign) (combine : Constraint → Constraint → Constraint) (operand : Reader) :
    Reader := fun ss => do
  let (left, rest) ← operand ss
  chainTail op combine operand rest.length left rest

/-- Reads a disjunction of conjunctions of operands. -/
def disjunction (operand : Reader) : Reader := chain .or or (chain .and and operand)

/-- Reads an operand: a tag, a negation or a constraint in parentheses, nested at most `n`
levels deep. -/
def operandAt : Nat → Reader
  | 0, _ => .error .unexpectedEnd
  | _ + 1, [] => .error .unexpectedEnd
  | _ + 1, .tag name :: ss => .ok (tag name, ss)
  | n + 1, .not :: ss => do
    let (c, rest) ← operandAt n ss
    return (not c, rest)
  | n + 1, .lparen :: ss => do
    match ← disjunction (operandAt n) ss with
    | (c, .rparen :: rest) => return (c, rest)
    | _ => throw .missingParen
  | _ + 1, s :: _ => .error (.unexpected s)

/-- Reads a constraint from a text. -/
def parse (text : String) : Except Fault Constraint := do
  let ss ← signs text.toList
  match ← disjunction (operandAt (ss.length + 1)) ss with
  | (c, []) => return c
  | (_, s :: _) => throw (.unexpected s)

end Constraint

end Understudy.Modules
