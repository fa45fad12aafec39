import Understudy.Text.Visible

/-!
# Quotations

How a message quotes a piece of text: between double quotes, on one line, with every character
either shown as itself or written as an escape that names it.
-/

set_option autoImplicit false

namespace Understudy.Text

/-- The code point of `c` in lower case hexadecimal digits, between braces. -/
def escapeCode (c : Char) : List Char :=
  '\\' :: 'u' :: '{' :: Nat.toDigits 16 c.toNat ++ ['}']

/-- How a quotation writes one character. -/
def escape (c : Char) : List Char :=
  match c with
  | '"' => ['\\', '"']
  | '\\' => ['\\', '\\']
  | '\t' => ['\\', 't']
  | '\r' => ['\\', 'r']
  | '\n' => ['\\', 'n']
  | '\x00' => ['\\', '0']
  | c => if isVisible c then [c] else escapeCode c

/-- The quotation of a text. -/
def quote (s : String) : String :=
  String.ofList ('"' :: s.toList.flatMap escape ++ ['"'])

end Understudy.Text
