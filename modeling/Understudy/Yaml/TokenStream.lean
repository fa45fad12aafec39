import Understudy.Yaml.Token

/-!
# Token streams

Splits a YAML text into tokens. Two things need more than the next characters:

* the indentation of a line opens and closes block collections;
* a key is known as such only at the colon behind it, so the place where a key can have begun is
  kept, and the key token is put there when the colon is met. Such a key has to stand on one line
  and to be short.

A text that is not well-formed has no result.
-/

set_option autoImplicit false

namespace Understudy.Yaml

/-- A place where a key can have begun. -/
structure KeyPlace where
  /-- How many tokens stand before it. -/
  tokensBefore : Nat
  index : Nat
  line : Nat
  column : Nat
  /-- Whether only a key can stand here. -/
  isRequired : Bool

/-- What is known in the middle of a text. -/
structure Scan where
  cursor : Cursor
  /-- The tokens so far, last one first. -/
  tokens : List Token
  /-- The columns of the open block collections, innermost first. -/
  indents : List Nat
  /-- Whether a key can begin here. -/
  allowsKey : Bool
  /-- Where the key in the innermost collection can have begun. -/
  keyPlace : Option KeyPlace
  /-- The same for the collections around each open flow collection, innermost first. -/
  outerPlaces : List (Option KeyPlace)

namespace Scan

/-- The beginning of a text. -/
def ofText (cs : List Char) : Scan where
  cursor := .ofText cs
  tokens := []
  indents := []
  allowsKey := true
  keyPlace := none
  outerPlaces := []

/-- Whether a flow collection is open. -/
def inFlow (s : Scan) : Bool := !s.outerPlaces.isEmpty

/-- The least column of a line that belongs to the innermost block collection, but does not begin
an entry of it. -/
def leastColumn (s : Scan) : Nat := (s.indents.head?.map (· + 1)).getD 0

/-- Adds a token. -/
def emit (s : Scan) (t : Token) : Scan := { s with tokens := t :: s.tokens }

/-- Adds a token behind the first `n` tokens. -/
def emitBehind (s : Scan) (n : Nat) (t : Token) : Scan :=
  { s with tokens := s.tokens.insertIdx (s.tokens.length - n) t }

/-- Adds a token and steps over its characters. -/
def take (s : Scan) (t : Token) (size : Nat) : Scan :=
  { s.emit t with cursor := s.cursor.skipMany size }

/-- Says whether a key can begin next. -/
def withKey (s : Scan) (allowsKey : Bool) : Scan := { s with allowsKey }

/-! ## Indentation -/

/-- Closes the block collections that begin to the right of a column; all of them without a
column. -/
def closeBlocks (column : Option Nat) (s : Scan) : Scan :=
  if s.inFlow then s
  else
    let closed := s.indents.takeWhile fun i => column.all (· < i)
    { s with
      indents := s.indents.drop closed.length
      tokens := closed.map (fun _ => Token.blockEnd) ++ s.tokens }

/-- Opens a block collection at a column to the right of the innermost one. Its token stands behind
the first `place` tokens. -/
def openBlock (column place : Nat) (t : Token) (s : Scan) : Scan :=
  if s.inFlow || s.indents.head?.any (column ≤ ·) then s
  else { s.emitBehind place t with indents := column :: s.indents }

/-- Opens a block collection here. -/
def openBlockHere (t : Token) (s : Scan) : Scan := s.openBlock s.cursor.column s.tokens.length t

/-! ## Keys -/

/-- Gives up the place where a key can have begun. -/
def dropKeyPlace (s : Scan) : Option Scan :=
  if s.keyPlace.any (·.isRequired) then none else some { s with keyPlace := none }

/-- Notes that a key can begin here. -/
def noteKeyPlace (s : Scan) : Option Scan :=
  if s.allowsKey then do
    let s ← s.dropKeyPlace
    return { s with keyPlace := some {
      tokensBefore := s.tokens.length
      index := s.cursor.index
      line := s.cursor.line
      column := s.cursor.column
      isRequired := !s.inFlow && s.indents.head? == some s.cursor.column } }
  else some s

/-- A key place that still counts: on the same line, and not too far back. -/
def keepPlace (c : Cursor) : Option KeyPlace → Option (Option KeyPlace)
  | none => some none
  | some place =>
    if place.line < c.line || place.index + 1024 < c.index then
      if place.isRequired then none else some none
    else some (some place)

/-- Gives up the key places that do not count any more. -/
def dropStalePlaces (s : Scan) : Option Scan := do
  let keyPlace ← keepPlace s.cursor s.keyPlace
  let outerPlaces ← s.outerPlaces.mapM (keepPlace s.cursor)
  return { s with keyPlace, outerPlaces }

/-! ## Between tokens -/

/-- Steps over blanks, comments and line ends, and over a byte order mark before each line. A tab
must not stand where a key can begin. -/
def skipSpace : Nat → Scan → Scan
  | 0, s => s
  | n + 1, s =>
    let isSpace (c : Char) : Bool := c == ' ' || (c == '\t' && (s.inFlow || !s.allowsKey))
    let c := (run isSpace s.cursor.skipOrderMark).2
    let c := if c.isAt '#' then c.skipLineRest else c
    if c.isAtBreak then
      skipSpace n { s with cursor := c.skipBreak, allowsKey := s.allowsKey || !s.inFlow }
    else { s with cursor := c }

/-! ## Tokens -/

/-- Ends everything that is open, before a document or a directive begins or ends. -/
def endDocument (s : Scan) : Option Scan := do
  let s ← (s.closeBlocks none).dropKeyPlace
  return s.withKey false

/-- Reads a directive. -/
def readDirective (s : Scan) : Option Scan := do
  let s ← s.endDocument
  let (t, cursor) ← directive s.cursor.skip
  return { s.emit t with cursor }

/-- Reads a mark between documents. -/
def readMark (s : Scan) (t : Token) : Option Scan := do
  let s ← s.endDocument
  return s.take t 3

/-- Reads the beginning of a flow collection. -/
def openFlow (s : Scan) (t : Token) : Option Scan := do
  let s ← s.noteKeyPlace
  let s := { s with keyPlace := none, outerPlaces := s.keyPlace :: s.outerPlaces }
  return (s.withKey true).take t 1

/-- Reads the end of a flow collection. -/
def closeFlow (s : Scan) (t : Token) : Option Scan := do
  let s ← s.dropKeyPlace
  let s := match s.outerPlaces with
    | [] => s
    | keyPlace :: outerPlaces => { s with keyPlace, outerPlaces }
  return (s.withKey false).take t 1

/-- Reads a comma between the entries of a flow collection. -/
def readFlowEntry (s : Scan) : Option Scan := do
  let s ← s.dropKeyPlace
  return (s.withKey true).take .flowEntry 1

/-- Reads the dash before an entry of a block sequence. -/
def readBlockEntry (s : Scan) : Option Scan := do
  guard (s.inFlow || s.allowsKey)
  let s ← (s.openBlockHere .blockSequenceStart).dropKeyPlace
  return (s.withKey true).take .blockEntry 1

/-- Reads the question mark before a key. -/
def readKey (s : Scan) : Option Scan := do
  guard (s.inFlow || s.allowsKey)
  let s ← (s.openBlockHere .blockMappingStart).dropKeyPlace
  return (s.withKey (!s.inFlow)).take .key 1

/-- Reads the colon before a value. A key before it is given its token. -/
def readValue (s : Scan) : Option Scan :=
  match s.keyPlace with
  | some place =>
    let s := (s.emitBehind place.tokensBefore .key).openBlock place.column place.tokensBefore
      .blockMappingStart
    some (({ s with keyPlace := none }.withKey false).take .value 1)
  | none => do
    guard (s.inFlow || s.allowsKey)
    let s := s.openBlockHere .blockMappingStart
    return (s.withKey (!s.inFlow)).take .value 1

/-- Reads a token that can begin a key. -/
def readContent (s : Scan) (read : Cursor → Option (Token × Cursor)) : Option Scan := do
  let s ← s.noteKeyPlace
  let (t, cursor) ← read s.cursor
  return { (s.emit t).withKey false with cursor }

/-- Reads a plain scalar. A key can begin behind it if a line ends there. -/
def readPlain (s : Scan) : Option Scan := do
  let s ← s.noteKeyPlace
  let (text, breaks, cursor) ←
    plainWords s.inFlow s.leastColumn (s.cursor.rest.length + 1) [] .none s.cursor
  return { (s.emit (.scalar .plain (String.ofList text))).withKey breaks with cursor }

/-- Reads a block scalar behind its first character. -/
def readBlock (s : Scan) (style : Style) : Option Scan := do
  let s ← s.dropKeyPlace
  let (text, cursor) ← blockScalar (style == .folded) s.leastColumn s.cursor.skip
  return { (s.emit (.scalar style (String.ofList text))).withKey true with cursor }

/-- Reads a scalar in quotes. -/
def quotedToken (quote : Char) (c : Cursor) : Option (Token × Cursor) := do
  let (text, c) ← quotedWords quote (c.rest.length + 1) [] c.skip
  return (.scalar .quoted (String.ofList text), c)

/-- Whether a plain scalar can begin here. -/
def beginsPlain (s : Scan) (ch : Char) : Bool :=
  if ch == '-' then !(s.cursor.peekAt 1).any isBlank
  else if ch == '?' || ch == ':' then !s.inFlow && !s.cursor.isGapAt 1
  else !(isBlank ch || isBreak ch || isFlowIndicator ch || "#&*!|>'\"%@\x60".toList.contains ch)

/-- Reads the token that begins with `ch`. -/
def readToken (s : Scan) (ch : Char) : Option Scan :=
  let c := s.cursor
  if c.column == 0 && ch == '%' then s.readDirective
  else if c.isAtMark '-' then s.readMark .documentStart
  else if c.isAtMark '.' then s.readMark .documentEnd
  else if ch == '[' then s.openFlow .flowSequenceStart
  else if ch == '\x7b' then s.openFlow .flowMappingStart
  else if ch == ']' then s.closeFlow .flowSequenceEnd
  else if ch == '\x7d' then s.closeFlow .flowMappingEnd
  else if ch == ',' then s.readFlowEntry
  else if ch == '-' && c.isGapAt 1 then s.readBlockEntry
  else if ch == '?' && (s.inFlow || c.isGapAt 1) then s.readKey
  else if ch == ':' && (s.inFlow || c.isGapAt 1) then s.readValue
  else if ch == '*' then s.readContent fun c =>
    (anchorName c.skip).map fun (name, c) => (.reference name, c)
  else if ch == '&' then s.readContent fun c =>
    (anchorName c.skip).map fun (name, c) => (.anchor name, c)
  else if ch == '!' then s.readContent fun c =>
    (tagText s.inFlow c).map fun (written, c) => (.tag written, c)
  else if ch == '|' && !s.inFlow then s.readBlock .literal
  else if ch == '>' && !s.inFlow then s.readBlock .folded
  else if ch == '\'' || ch == '"' then s.readContent (quotedToken ch)
  else if s.beginsPlain ch then s.readPlain
  else none

/-- Reads tokens up to the end of the text. Every token takes at least one character. -/
def readTokens : Nat → Scan → Option (List Token)
  | 0, _ => none
  | n + 1, s => do
    let s ← (s.skipSpace (s.cursor.rest.length + 1)).dropStalePlaces
    match s.cursor.peek with
    | none =>
      let s ← s.endDocument
      return s.tokens.reverse
    | some ch => ((s.closeBlocks (some s.cursor.column)).readToken ch).bind (readTokens n)

end Scan

/-- The tokens of a text. -/
def tokens? (text : String) : Option (List Token) :=
  let cs := text.toList
  if cs.all isAdmissible then (Scan.ofText cs).readTokens (cs.length + 1) else none

end Understudy.Yaml
