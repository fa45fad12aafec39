/-!
# Token kinds

The classes of Go tokens. Every keyword has a kind of its own, and so does every operator that
can stand in a declaration; the operators that only occur inside expressions share one kind.
-/

set_option autoImplicit false

namespace Understudy.Source

/-- The class of a token. -/
inductive Kind where
  | kwBreak | kwCase | kwChan | kwConst | kwContinue | kwDefault | kwDefer | kwElse
  | kwFallthrough | kwFor | kwFunc | kwGo | kwGoto | kwIf | kwImport | kwInterface | kwMap
  | kwPackage | kwRange | kwReturn | kwSelect | kwStruct | kwSwitch | kwType | kwVar
  | ident | number | string | rawString | rune
  | ellipsis | dot | comma | semi | colon
  | lparen | rparen | lbrack | rbrack | lbrace | rbrace
  | star | arrow | assign | pipe | tilde | plus | minus | inc | dec
  /-- An operator that occurs in expressions only. -/
  | operator
  deriving Repr, DecidableEq

namespace Kind

/-- The spelling of every keyword. -/
def keywords : List (String × Kind) := [
  ("break", kwBreak), ("case", kwCase), ("chan", kwChan), ("const", kwConst),
  ("continue", kwContinue), ("default", kwDefault), ("defer", kwDefer), ("else", kwElse),
  ("fallthrough", kwFallthrough), ("for", kwFor), ("func", kwFunc), ("go", kwGo),
  ("goto", kwGoto), ("if", kwIf), ("import", kwImport), ("interface", kwInterface),
  ("map", kwMap), ("package", kwPackage), ("range", kwRange), ("return", kwReturn),
  ("select", kwSelect), ("struct", kwStruct), ("switch", kwSwitch), ("type", kwType),
  ("var", kwVar)]

/-- The spelling of every operator and bracket, longer ones first, so that the first spelling a
text begins with is the longest one. -/
def operators : List (String × Kind) := [
  ("...", ellipsis), ("<<=", operator), (">>=", operator), ("&^=", operator),
  ("<-", arrow), ("++", inc), ("--", dec), ("<<", operator), (">>", operator),
  ("&^", operator), ("+=", operator), ("-=", operator), ("*=", operator), ("/=", operator),
  ("%=", operator), ("&=", operator), ("|=", operator), ("^=", operator), ("&&", operator),
  ("||", operator), ("==", operator), ("!=", operator), ("<=", operator), (">=", operator),
  (":=", operator),
  (".", dot), (",", comma), (";", semi), (":", colon), ("(", lparen), (")", rparen),
  ("[", lbrack), ("]", rbrack), ("\x7b", lbrace), ("\x7d", rbrace), ("*", star), ("=", assign),
  ("|", pipe), ("~", tilde), ("+", plus), ("-", minus), ("/", operator), ("%", operator),
  ("&", operator), ("^", operator), ("<", operator), (">", operator), ("!", operator)]

/-- The kind of a word: a keyword if it is spelled like one, otherwise an identifier. -/
def ofWord (word : String) : Kind := (keywords.lookup word).getD ident

/-- Whether a line that ends after such a token ends a statement. -/
def endsStatement : Kind → Bool
  | ident | number | string | rawString | rune | kwBreak | kwContinue | kwFallthrough
  | kwReturn | inc | dec | rparen | rbrack | rbrace => true
  | _ => false

/-- Whether such a token can begin a type. -/
def startsType : Kind → Bool
  | ident | star | lbrack | lparen | kwFunc | kwMap | kwChan | kwStruct | kwInterface
  | arrow => true
  | _ => false

/-- Whether such a token is a basic literal. -/
def isLiteral : Kind → Bool
  | number | string | rawString | rune => true
  | _ => false

/-- Whether such a token opens a bracket. -/
def opens : Kind → Bool
  | lparen | lbrack | lbrace => true
  | _ => false

/-- Whether such a token closes a bracket. -/
def closes : Kind → Bool
  | rparen | rbrack | rbrace => true
  | _ => false

end Kind

end Understudy.Source
