/-!
# UTF-8

Offsets into source text count the bytes of its UTF-8 form, and what another program writes
arrives as bytes. This module measures and cuts texts by bytes, and reads bytes in two ways:
`decode` accepts well-formed input only and says where the first fault lies, `decodeLossy`
replaces each fault by one replacement character.

A fault is the longest run of bytes that begins a character and cannot be continued, or a single
byte that begins none.
-/

set_option autoImplicit false

namespace Understudy.Text

/-! ## Measuring -/

/-- The number of bytes of a text. -/
def byteSize : List Char → Nat
  | [] => 0
  | c :: cs => c.utf8Size + byteSize cs

/-- The longest part at the start of a text that has at most `n` bytes. -/
def takeBytes : Nat → List Char → List Char
  | _, [] => []
  | n, c :: cs => if c.utf8Size ≤ n then c :: takeBytes (n - c.utf8Size) cs else []

/-! ## Reading one character -/

/-- The result of reading at the start of some bytes. -/
inductive Decoded where
  /-- A character that takes `size` bytes. -/
  | char (c : Char) (size : Nat)
  /-- The first `size` bytes belong to no character. -/
  | invalid (size : Nat)
  /-- The bytes end inside a character. -/
  | truncated

/-- Which second bytes may follow the first byte `b` of a longer character. -/
def secondByteRange (b : UInt8) : UInt8 × UInt8 :=
  if b == 0xe0 then (0xa0, 0xbf)
  else if b == 0xed then (0x80, 0x9f)
  else if b == 0xf0 then (0x90, 0xbf)
  else if b == 0xf4 then (0x80, 0x8f)
  else (0x80, 0xbf)

/-- The number of bytes of a character that begins with `b`; zero if none does. -/
def expectedSize (b : UInt8) : Nat :=
  if b < 0x80 then 1
  else if b < 0xc2 then 0
  else if b < 0xe0 then 2
  else if b < 0xf0 then 3
  else if b < 0xf5 then 4
  else 0

/-- Adds the payload of a continuation byte. -/
def addPayload (code : Nat) (b : UInt8) : Nat := code * 64 + (b.toNat - 0x80)

/-- Reads the remaining `missing` bytes of a character of which `read` bytes are known. -/
def continueDecoding : Nat → Nat → Nat → List UInt8 → Decoded
  | 0, read, code, _ => .char (Char.ofNat code) read
  | _ + 1, _, _, [] => .truncated
  | missing + 1, read, code, b :: bs =>
    if 0x80 ≤ b && b ≤ 0xbf then continueDecoding missing (read + 1) (addPayload code b) bs
    else .invalid read

/-- Reads the character that begins with the byte `b`. -/
def decodeNext (b : UInt8) (bs : List UInt8) : Decoded :=
  match expectedSize b with
  | 0 => .invalid 1
  | 1 => .char (Char.ofNat b.toNat) 1
  | n + 2 =>
    match bs with
    | [] => .truncated
    | b₂ :: bs =>
      let (lo, hi) := secondByteRange b
      if lo ≤ b₂ && b₂ ≤ hi then
        let first := b.toNat - (if n == 0 then 0xc0 else if n == 1 then 0xe0 else 0xf0)
        continueDecoding n 2 (addPayload first b₂) bs
      else .invalid 1

/-! ## Reading texts -/

/-- Reads bytes with one replacement character for each fault. The counter `skip` holds the
bytes that belong to what was read last. -/
def decodeLossyFrom : Nat → List UInt8 → List Char
  | _, [] => []
  | skip + 1, _ :: bs => decodeLossyFrom skip bs
  | 0, b :: bs =>
    match decodeNext b bs with
    | .char c size => c :: decodeLossyFrom (size - 1) bs
    | .invalid size => '\ufffd' :: decodeLossyFrom (size - 1) bs
    | .truncated => ['\ufffd']

/-- Reads bytes with one replacement character for each fault. -/
def decodeLossy (bytes : ByteArray) : String :=
  String.ofList (decodeLossyFrom 0 bytes.toList)

/-- Where and how some bytes fail to be a text. -/
inductive Utf8Fault where
  /-- The `size` bytes from `index` on belong to no character. -/
  | invalid (size index : Nat)
  /-- The bytes end inside the character that begins at `index`. -/
  | truncated (index : Nat)
  deriving Repr, DecidableEq

/-- The wording of a fault. -/
def Utf8Fault.message : Utf8Fault → String
  | .invalid size index =>
    "invalid utf-8 sequence of " ++ toString size ++ " bytes from index " ++ toString index
  | .truncated index => "incomplete utf-8 byte sequence from index " ++ toString index

/-- Reads bytes, or finds the first fault. -/
def decodeFrom : Nat → Nat → List UInt8 → Except Utf8Fault (List Char)
  | _, _, [] => .ok []
  | index, skip + 1, _ :: bs => decodeFrom (index + 1) skip bs
  | index, 0, b :: bs =>
    match decodeNext b bs with
    | .char c size =>
      match decodeFrom (index + 1) (size - 1) bs with
      | .ok cs => .ok (c :: cs)
      | .error fault => .error fault
    | .invalid size => .error (.invalid size index)
    | .truncated => .error (.truncated index)

/-- Reads well-formed bytes, or says where the first fault lies. -/
def decode (bytes : ByteArray) : Except Utf8Fault String :=
  (decodeFrom 0 0 bytes.toList).map String.ofList

end Understudy.Text
