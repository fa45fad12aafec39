import Understudy.Text.Quoted

/-!
# Text for a terminal

A log can be read on a terminal, which acts on some control characters instead of showing them.
In the log those are written as their codes; every other character stands for itself, a line end
too.
-/

set_option autoImplicit false

namespace Understudy.Text

/-- The control characters with a code below 128 that a terminal acts on: bell, backspace, form
feed, escape and delete. -/
def terminalControls : List Char := ['\x07', '\x08', '\x0c', '\x1b', '\x7f']

/-- Whether `c` is one of the control characters with a code from 128 to 159. -/
def isUpperControl (c : Char) : Bool := 0x80 ≤ c.toNat && c.toNat ≤ 0x9f

/-- A code below 256 in two hexadecimal digits. -/
def hexPair (n : Nat) : List Char := [Nat.digitChar (n / 16), Nat.digitChar (n % 16)]

/-- How the log writes one character. -/
def inertChar (c : Char) : List Char :=
  if terminalControls.contains c then '\\' :: 'x' :: hexPair c.toNat
  else if isUpperControl c then escapeCode c
  else [c]

/-- How the log writes a text. -/
def inert (s : String) : String := String.ofList (s.toList.flatMap inertChar)

end Understudy.Text
