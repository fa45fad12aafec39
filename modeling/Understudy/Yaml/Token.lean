import Understudy.Yaml.Scalar

/-!
# Tokens

The pieces of a YAML text, and how those that are no scalars are written: names of anchors, tags
and directives. The structure that indentation gives to block collections is made explicit by
tokens of its own, which `Yaml.TokenStream` puts between the others.

A text that is not well-formed has no result.
-/

set_option autoImplicit false

namespace Understudy.Yaml

/-- How a scalar is written, as far as its meaning depends on it. -/
inductive Style where
  /-- Without quotes. -/
  | plain
  /-- In quotes of either kind. -/
  | quoted
  /-- As a block that keeps its lines. -/
  | literal
  /-- As a block that joins its lines. -/
  | folded
  deriving Repr, DecidableEq

/-- A tag is a sequence of bytes: escapes can spell any of them but zero, which ends a tag. -/
abbrev Tag := List UInt8

/-- The bytes of a text. -/
def Tag.ofText (text : String) : Tag := text.toUTF8.toList

/-- A tag as it is written: a handle that stands for the beginning of the tag, and the rest. A tag
in full has an empty handle. -/
structure TagText where
  handle : String
  suffix : Tag
  deriving Repr, DecidableEq

/-- A piece of a text. -/
inductive Token where
  /-- The version of the language that a document is written in. -/
  | version (major minor : Nat)
  /-- What a handle stands for. -/
  | handle (definition : TagText)
  | documentStart
  | documentEnd
  | blockSequenceStart
  | blockMappingStart
  | blockEnd
  | flowSequenceStart
  | flowSequenceEnd
  | flowMappingStart
  | flowMappingEnd
  /-- A dash before an entry. -/
  | blockEntry
  /-- A comma between entries. -/
  | flowEntry
  /-- The place before a key. -/
  | key
  /-- The colon between a key and its value. -/
  | value
  /-- A name that stands for an earlier node. -/
  | reference (name : String)
  /-- A name that is given to a node. -/
  | anchor (name : String)
  | tag (written : TagText)
  | scalar (style : Style) (text : String)
  deriving Repr, DecidableEq

/-! ## Names -/

/-- Whether `c` may stand in the name of an anchor, a handle or a directive. -/
def isNameChar (c : Char) : Bool :=
  ('0' ≤ c && c ≤ '9') || ('A' ≤ c && c ≤ 'Z') || ('a' ≤ c && c ≤ 'z') || c == '_' || c == '-'

/-- Reads the longest run of characters of a class, none of which ends a line. -/
def run (p : Char → Bool) (c : Cursor) : List Char × Cursor :=
  let read := c.rest.takeWhile p
  (read, c.skipMany read.length)

/-- Steps over blanks. -/
def skipBlanks (c : Cursor) : Cursor := (run isBlank c).2

/-- Whether the name of an anchor can end before `c`. -/
def endsName (c : Char) : Bool :=
  c == '?' || c == ':' || c == ',' || c == ']' || c == '\x7d' || c == '%' || c == '@' ||
    c == '\x60'

/-- Reads the name of an anchor, behind its mark. -/
def anchorName (c : Cursor) : Option (String × Cursor) :=
  let (name, c) := run isNameChar c
  if !name.isEmpty && (c.isGapAt 0 || c.peek.any endsName) then some (String.ofList name, c)
  else none

/-! ## Tags -/

/-- Whether `c` may stand in a tag. A tag in full may hold more. -/
def isTagChar (inFull : Bool) (c : Char) : Bool :=
  isNameChar c || ";/?:@&=+$.!~*'()".toList.contains c || (inFull && ",[]".toList.contains c)

/-- Reads a byte that is written as a percent sign and two digits. -/
def percentByte (c : Cursor) : Option (UInt8 × Cursor) := do
  let digits := c.skip.rest.take 2
  guard (c.isAt '%' && digits.length == 2)
  return (UInt8.ofNat (← hexValue? digits), c.skipMany 3)

/-- How many bytes follow the first byte of a character. -/
def bytesAfter? (first : UInt8) : Option Nat :=
  if first < 0x80 then some 0
  else if 0xc0 ≤ first && first < 0xe0 then some 1
  else if 0xe0 ≤ first && first < 0xf0 then some 2
  else if 0xf0 ≤ first && first < 0xf8 then some 3
  else none

/-- Reads further bytes of a character. -/
def furtherBytes : Nat → Cursor → Option (Tag × Cursor)
  | 0, c => some ([], c)
  | n + 1, c => do
    let (byte, c) ← percentByte c
    guard (0x80 ≤ byte && byte < 0xc0)
    let (bytes, c) ← furtherBytes n c
    return (byte :: bytes, c)

/-- Reads a character whose bytes are written as escapes. -/
def percentChar (c : Cursor) : Option (Tag × Cursor) := do
  let (first, c) ← percentByte c
  let (bytes, c) ← furtherBytes (← bytesAfter? first) c
  return (first :: bytes, c)

/-- Reads the characters of a tag. -/
def tagChars (inFull : Bool) : Nat → Cursor → Option (Tag × Cursor)
  | 0, _ => none
  | n + 1, c =>
    match c.peek with
    | none => some ([], c)
    | some ch =>
      if ch == '%' then do
        let (bytes, c) ← percentChar c
        let (more, c) ← tagChars inFull n c
        return (bytes ++ more, c)
      else if isTagChar inFull ch then do
        let (more, c) ← tagChars inFull n c.skip
        return (Tag.ofText ch.toString ++ more, c)
      else some ([], c)

/-- A tag up to the first zero byte. -/
def Tag.cut (t : Tag) : Tag := t.takeWhile (· != 0)

/-- Reads the handle of a tag: an exclamation mark, or a name between two of them. A name without
the second mark is the beginning of what follows the handle. -/
def tagHandle (c : Cursor) : List Char × List Char × Cursor :=
  let (name, after) := run isNameChar c.skip
  if after.isAt '!' then ('!' :: name ++ ['!'], [], after.skip) else (['!'], name, after)

/-- Reads a tag, whose first character is an exclamation mark. -/
def tagText (inFlow : Bool) (c : Cursor) : Option (TagText × Cursor) := do
  let fuel := c.rest.length + 1
  let (written, c) ←
    if c.peekAt 1 == some '<' then do
      let (uri, c) ← tagChars true fuel (c.skipMany 2)
      guard (!uri.isEmpty && c.isAt '>')
      pure (({ handle := "", suffix := uri.cut } : TagText), c.skip)
    else do
      let (handle, first, c) := tagHandle c
      let (more, c) ← tagChars false fuel c
      let suffix := Tag.cut (Tag.ofText (String.ofList first) ++ more)
      if handle.length == 1 then
        if suffix.isEmpty then pure (({ handle := "", suffix := Tag.ofText "!" } : TagText), c)
        else pure (({ handle := "!", suffix } : TagText), c)
      else do
        guard (!more.isEmpty)
        pure (({ handle := String.ofList handle, suffix } : TagText), c)
  guard (c.isGapAt 0 || (inFlow && c.isAt ','))
  return (written, c)

/-! ## Directives -/

/-- Reads a part of a version number, of nine digits at most. -/
def versionPart (c : Cursor) : Option (Nat × Cursor) := do
  let (digits, c) := run Char.isDigit c
  guard (0 < digits.length && digits.length ≤ 9)
  return (digits.foldl (fun n d => n * 10 + (d.toNat - '0'.toNat)) 0, c)

/-- Reads a version number. -/
def versionNumber (c : Cursor) : Option (Token × Cursor) := do
  let (major, c) ← versionPart (skipBlanks c)
  guard (c.isAt '.')
  let (minor, c) ← versionPart c.skip
  return (.version major minor, c)

/-- Reads a handle and what it stands for. -/
def handleDefinition (c : Cursor) : Option (Token × Cursor) := do
  let c := skipBlanks c
  guard (c.isAt '!')
  let (handle, first, c) := tagHandle c
  guard (first.isEmpty && c.isAtBlank)
  let (uri, c) ← tagChars true (c.rest.length + 1) (skipBlanks c)
  guard (!uri.isEmpty && c.isGapAt 0)
  return (.handle { handle := String.ofList handle, suffix := uri.cut }, c)

/-- Reads a directive behind its percent sign, up to the end of its line. -/
def directive (c : Cursor) : Option (Token × Cursor) := do
  let (name, c) := run isNameChar c
  guard (c.isGapAt 0)
  let (token, c) ←
    match String.ofList name with
    | "YAML" => versionNumber c
    | "TAG" => handleDefinition c
    | _ => none
  let c := skipBlanks c
  let c := if c.isAt '#' then c.skipLineRest else c
  guard (c.isAtBreak || c.isAtEnd)
  return (token, c.skipBreak)

end Understudy.Yaml
