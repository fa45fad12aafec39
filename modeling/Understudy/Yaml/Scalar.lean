import Understudy.Yaml.Cursor

/-!
# Scalars

The five ways of writing a scalar: plain, in single or double quotes, and as a literal or folded
block. In all but the literal block a line end between two lines of text becomes a space.

Every function takes a counter that is at least the number of characters left; a text that is not
well-formed has no result.
-/

set_option autoImplicit false

namespace Understudy.Yaml

open Cursor

/-! ## Blanks inside a scalar -/

/-- The blanks between two words of a scalar: on one line, or across line ends. -/
structure Gap where
  /-- The blanks before the first line end. -/
  blanks : List Char
  /-- The first line end, if there is one. -/
  first : Option (List Char)
  /-- The further line ends. -/
  further : List Char

namespace Gap

/-- No blanks. -/
def none : Gap := { blanks := [], first := .none, further := [] }

/-- An escaped line end, which leaves nothing behind. -/
def escaped : Gap := { blanks := [], first := some [], further := [] }

/-- Whether a line ends in the gap. -/
def breaks (g : Gap) : Bool := g.first.isSome

/-- What a gap leaves in the scalar: its blanks, or a space for a single line end, or all line
ends but the first. -/
def text (g : Gap) : List Char :=
  match g.first with
  | .none => g.blanks
  | some ['\n'] => if g.further.isEmpty then [' '] else g.further
  | some first => first ++ g.further

end Gap

/-- Reads blanks and line ends. A tab must not stand at the beginning of a line in a column below
`indent`. -/
def scanGap (indent : Nat) : Nat → Gap → Cursor → Option (Gap × Cursor)
  | 0, _, _ => none
  | n + 1, g, c =>
    match c.peek with
    | none => some (g, c)
    | some ch =>
      if isBlank ch then
        if g.breaks && c.column < indent && ch == '\t' then none
        else scanGap indent n (if g.breaks then g else { g with blanks := g.blanks ++ [ch] }) c.skip
      else if isBreak ch then
        let g := if g.breaks then { g with further := g.further ++ c.breakText }
          else { g with blanks := [], first := some c.breakText }
        scanGap indent n g c.skipBreak
      else some (g, c)

/-! ## Plain scalars -/

/-- Whether `ch` ends a plain scalar inside a flow collection. -/
def isFlowIndicator (ch : Char) : Bool :=
  ch == ',' || ch == '[' || ch == ']' || ch == '{' || ch == '}'

/-- Reads a word of a plain scalar. -/
def plainWord (inFlow : Bool) : Nat → Cursor → Option (List Char × Cursor)
  | 0, _ => none
  | n + 1, c =>
    match c.peek with
    | none => some ([], c)
    | some ch =>
      if isBlank ch || isBreak ch then some ([], c)
      else if inFlow && ch == ':' && (c.peekAt 1).any (fun d => isFlowIndicator d || d == '?') then
        none
      else if (ch == ':' && c.isGapAt 1) || (inFlow && isFlowIndicator ch) then some ([], c)
      else do
        let (word, after) ← plainWord inFlow n c.skip
        return (ch :: word, after)

/-- Reads the words of a plain scalar, whose lines have to be indented by `indent`. The last part
of the result says that a line ended behind the last word. -/
def plainWords (inFlow : Bool) (indent : Nat) :
    Nat → List Char → Gap → Cursor → Option (List Char × Bool × Cursor)
  | 0, _, _, _ => none
  | n + 1, text, gap, c =>
    if c.isAtAnyMark || c.isAt '#' then some (text, gap.breaks, c)
    else do
      let (word, c) ← plainWord inFlow (n + 1) c
      let text := if word.isEmpty then text else text ++ gap.text ++ word
      let gap := if word.isEmpty then gap else .none
      if c.isAtBlank || c.isAtBreak then
        let (gap, c) ← scanGap indent (n + 1) gap c
        if !inFlow && c.column < indent then return (text, gap.breaks, c)
        else plainWords inFlow indent n text gap c
      else return (text, gap.breaks, c)

/-! ## Quoted scalars -/

/-- The value of a hexadecimal digit. -/
def hexDigit? (ch : Char) : Option Nat :=
  if '0' ≤ ch && ch ≤ '9' then some (ch.toNat - '0'.toNat)
  else if 'a' ≤ ch && ch ≤ 'f' then some (ch.toNat - 'a'.toNat + 10)
  else if 'A' ≤ ch && ch ≤ 'F' then some (ch.toNat - 'A'.toNat + 10)
  else none

/-- The value of some hexadecimal digits. -/
def hexValue? (digits : List Char) : Option Nat :=
  digits.foldlM (fun n ch => (hexDigit? ch).map (n * 16 + ·)) 0

/-- The character with a code point. -/
def charOf? (n : Nat) : Option Char :=
  if h : n.isValidChar then some (Char.ofNatAux n h) else none

/-- Reads a code point of `size` digits. -/
def codeEscape (size : Nat) (c : Cursor) : Option (Char × Cursor) := do
  let digits := c.rest.take size
  guard (digits.length == size)
  let ch ← charOf? (← hexValue? digits)
  return (ch, c.skipMany size)

/-- Reads what follows a backslash in double quotes, line ends apart. -/
def escape (c : Cursor) : Option (Char × Cursor) := do
  match ← c.peek with
  | '0' => some ('\x00', c.skip)
  | 'a' => some ('\x07', c.skip)
  | 'b' => some ('\x08', c.skip)
  | 't' => some ('\t', c.skip)
  | '\t' => some ('\t', c.skip)
  | 'n' => some ('\n', c.skip)
  | 'v' => some ('\x0b', c.skip)
  | 'f' => some ('\x0c', c.skip)
  | 'r' => some ('\r', c.skip)
  | 'e' => some ('\x1b', c.skip)
  | ' ' => some (' ', c.skip)
  | '"' => some ('"', c.skip)
  | '/' => some ('/', c.skip)
  | '\\' => some ('\\', c.skip)
  | 'N' => some ('\u0085', c.skip)
  | '_' => some ('\u00a0', c.skip)
  | 'L' => some ('\u2028', c.skip)
  | 'P' => some ('\u2029', c.skip)
  | 'x' => codeEscape 2 c.skip
  | 'u' => codeEscape 4 c.skip
  | 'U' => codeEscape 8 c.skip
  | _ => none

/-- Reads a word in quotes, up to a blank, a line end or the closing quote. The gap in the result
is that of an escaped line end, if one ends the word. -/
def quotedWord (quote : Char) : Nat → Cursor → Option (List Char × Gap × Cursor)
  | 0, _ => none
  | n + 1, c =>
    match c.peek with
    | none => some ([], .none, c)
    | some ch =>
      if isBlank ch || isBreak ch then some ([], .none, c)
      else if quote == '\'' && ch == '\'' && c.peekAt 1 == some '\'' then do
        let (word, gap, after) ← quotedWord quote n (c.skipMany 2)
        return ('\'' :: word, gap, after)
      else if ch == quote then some ([], .none, c)
      else if quote == '"' && ch == '\\' then
        if c.skip.isAtBreak then some ([], .escaped, c.skip.skipBreak)
        else do
          let (ch, c) ← escape c.skip
          let (word, gap, after) ← quotedWord quote n c
          return (ch :: word, gap, after)
      else do
        let (word, gap, after) ← quotedWord quote n c.skip
        return (ch :: word, gap, after)

/-- Reads the words in quotes, up to and including the closing quote. -/
def quotedWords (quote : Char) : Nat → List Char → Cursor → Option (List Char × Cursor)
  | 0, _, _ => none
  | n + 1, text, c =>
    if c.isAtAnyMark || c.isAtEnd then none
    else do
      let (word, gap, c) ← quotedWord quote (n + 1) c
      let text := text ++ word
      if c.isAt quote then return (text, c.skip)
      else
        let (gap, c) ← scanGap 0 (n + 1) gap c
        quotedWords quote n (text ++ gap.text) c

/-! ## Block scalars -/

/-- What becomes of the line ends behind a block. -/
inductive Chomping where
  /-- All are removed. -/
  | strip
  /-- The first is kept. -/
  | clip
  /-- All are kept. -/
  | keep
  deriving DecidableEq

/-- Reads the chomping mark of a block. -/
def chomping? (c : Cursor) : Option (Chomping × Cursor) :=
  if c.isAt '+' then some (.keep, c.skip)
  else if c.isAt '-' then some (.strip, c.skip)
  else none

/-- Reads the indentation mark of a block, which is not zero. Zero stands for none. -/
def increment? (c : Cursor) : Option (Nat × Cursor) :=
  match c.peek with
  | some ch =>
    if ch.isDigit then
      if ch == '0' then none else some (ch.toNat - '0'.toNat, c.skip)
    else some (0, c)
  | none => some (0, c)

/-- Reads the marks behind the beginning of a block, in either order. -/
def blockMarks? (c : Cursor) : Option (Chomping × Nat × Cursor) :=
  match chomping? c with
  | some (chomping, c) => do
    let (increment, c) ← increment? c
    return (chomping, increment, c)
  | none => do
    let (increment, c) ← increment? c
    if increment == 0 then return (.clip, 0, c)
    let (chomping, c) := (chomping? c).getD (.clip, c)
    return (chomping, increment, c)

/-- Steps over the indentation of a line: spaces up to the column `indent`, or all of them while
it is not known. -/
def skipIndentation (indent : Option Nat) : Nat → Cursor → Cursor
  | 0, c => c
  | n + 1, c =>
    if c.isAt ' ' && indent.all (c.column < ·) then skipIndentation indent n c.skip else c

/-- Reads empty lines of a block: their line ends, the largest column, and the place of the next
line that is not empty. -/
def blockGap (indent : Option Nat) : Nat → List Char → Nat → Cursor →
    Option (List Char × Nat × Cursor)
  | 0, _, _, _ => none
  | n + 1, breaks, widest, c =>
    let c := skipIndentation indent (n + 1) c
    let widest := max widest c.column
    if c.isAt '\t' && indent.all (c.column < ·) then none
    else if c.isAtBreak then
      blockGap indent n (breaks ++ c.breakText) widest c.skipBreak
    else some (breaks, widest, c)

/-- Reads the lines of a block. `pending` is the line end behind the text so far, `breaks` are
those of empty lines after it, and `afterBlank` says that the line before begins with a blank. -/
def blockLines (folded : Bool) (indent : Nat) : Nat → List Char → List Char → List Char → Bool →
    Cursor → Option (List Char × List Char × List Char × Cursor)
  | 0, _, _, _, _, _ => none
  | n + 1, text, pending, breaks, afterBlank, c =>
    if c.column == indent && !c.isAtEnd then do
      let joins := folded && pending == ['\n'] && !afterBlank && !c.isAtBlank
      let glue := if joins then (if breaks.isEmpty then [' '] else []) else pending
      let line := c.rest.takeWhile fun ch => !isBreak ch
      let after := c.skipLineRest
      let (nextBreaks, _, next) ← blockGap (some indent) (n + 1) [] 0 after.skipBreak
      blockLines folded indent n (text ++ glue ++ breaks ++ line) after.breakText nextBreaks
        c.isAtBlank next
    else some (text, pending, breaks, c)

/-- Reads a block behind its first character. The column of the collection around it is one less
than `least`. -/
def blockScalar (folded : Bool) (least : Nat) (c : Cursor) : Option (List Char × Cursor) := do
  let fuel := c.rest.length + 1
  let (chomping, increment, c) ← blockMarks? c
  let c := c.skipMany (c.rest.takeWhile isBlank).length
  let c := if c.isAt '#' then c.skipLineRest else c
  guard (c.isAtBreak || c.isAtEnd)
  let c := c.skipBreak
  let known := if increment == 0 then none else some (least - 1 + increment)
  let (breaks, widest, c) ← blockGap known fuel [] 0 c
  let indent := known.getD (max (max widest least) 1)
  let (text, pending, breaks, c) ← blockLines folded indent fuel [] [] breaks false c
  let tail := match chomping with
    | .strip => []
    | .clip => pending
    | .keep => pending ++ breaks
  return (text ++ tail, c)

end Understudy.Yaml
