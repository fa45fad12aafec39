import Understudy.Source.Lexeme
import Understudy.Source.Position
import Understudy.Text.Quoted

/-!
# Tokens

The token list of a source text. Layout is dropped between tokens, but each token keeps the
layout in front of it, so that a run of tokens can be spelled out exactly as it stands in the
source. A line end after a token that can end a statement leaves a semicolon token with empty
text behind; so does the end of the text.

`spell` and `inner` give back source text: the text of a run of tokens, and the text between two
brackets.
-/

set_option autoImplicit false

namespace Understudy.Source

open Text

/-- A token with its place in the source text. -/
structure Token where
  kind : Kind
  /-- The layout between the token before and this one. -/
  gap : String
  /-- The characters of the token; empty for a semicolon that a line end stands for. -/
  text : String
  /-- The byte offset of the first character. -/
  start : Nat
  deriving Repr, DecidableEq

namespace Token

/-- The byte offset after the last character. -/
def stop (t : Token) : Nat := t.start + t.text.utf8ByteSize

/-- The semicolon that the line end at an offset stands for. -/
def lineEnd (offset : Nat) : Token := { kind := .semi, gap := "", text := "", start := offset }

/-- Puts layout in front of the first token. -/
def afterLayout (layout : List Char) : List Token → List Token
  | [] => []
  | t :: ts => { t with gap := String.ofList layout ++ t.gap } :: ts

/-! ## Source text of tokens -/

/-- The text of a run of tokens, with the layout before each of them. -/
def spellAll : List Token → String
  | [] => ""
  | t :: ts => t.gap ++ t.text ++ spellAll ts

/-- The source text from the start of the first to the end of the last token. -/
def spell : List Token → String
  | [] => ""
  | t :: ts => t.text ++ spellAll ts

/-- The source text between the end of a token and the start of `close`, where `ts` are the
tokens between them. -/
def inner (ts : List Token) (close : Token) : String := spellAll ts ++ close.gap

/-! ## Finding the tokens -/

/-- A lexeme that is no token, with its byte offset. -/
structure Fault where
  text : List Char
  start : Nat
  deriving Repr, DecidableEq

/-- The tokens of a text that begins at `offset`. The flag `pending` says that the token before
can end a statement and no line has ended since. -/
def scan (offset : Nat) (pending : Bool) : List Char → Except Fault (List Token)
  | [] => .ok (if pending then [lineEnd offset] else [])
  | c :: cs =>
    let lexeme := (next c cs).1
    let after := offset + byteSize lexeme.text
    match lexeme with
    | .bad text => .error { text, start := offset }
    | .token kind text => do
      let ts ← scan after kind.endsStatement (next c cs).2
      return { kind, gap := "", text := String.ofList text, start := offset } :: ts
    | .layout text =>
      if pending && text.contains '\n' then do
        let ts ← scan after false (next c cs).2
        return lineEnd offset :: afterLayout text ts
      else do
        let ts ← scan after pending (next c cs).2
        return afterLayout text ts
termination_by cs => cs.length
decreasing_by all_goals exact next_length_lt c cs

/-- The syntax error for a lexeme that is no token. -/
def Fault.error (source : String) (fault : Fault) : SyntaxError :=
  .atOffset source fault.start ("unexpected " ++ quote (String.ofList fault.text))

end Token

/-- The tokens of a source text. -/
def tokenize (source : String) : Except SyntaxError (List Token) :=
  (Token.scan 0 false source.toList).mapError (Token.Fault.error source)

end Understudy.Source
