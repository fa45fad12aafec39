import Understudy.Source.Identifier
import Understudy.Text.Pieces

/-!
# Overrides

The body of a stubbed function can be given from outside. A function is named by a key: its
package, the type it belongs to if it is a method, and its name. A method has several spellings,
`pkg.T.M`, `pkg.(T).M` and `pkg.(*T).M`, with or without type arguments after `T`, and they all
are one key.
-/

set_option autoImplicit false

namespace Understudy.Stub

open Text Source

/-- Names a function or method. -/
structure OverrideKey where
  /-- The name in the package clause. -/
  package : String
  /-- The name of the type that a method belongs to. -/
  receiver : Option String
  function : String
  deriving Repr, DecidableEq

namespace OverrideKey

/-- The canonical spelling of a key. -/
def text (key : OverrideKey) : String :=
  match key.receiver with
  | some receiver => key.package ++ "." ++ receiver ++ "." ++ key.function
  | none => key.package ++ "." ++ key.function

/-- Splits what follows the package and its dot into receiver and function. -/
def splitMember? : List Char → Option (Option (List Char) × List Char)
  | '(' :: cs =>
    (cut? [')', '.'] cs).map fun (receiver, function) =>
      (some ((['*'].isPrefixOf? receiver).getD receiver), function)
  | cs =>
    match cut? ['.'] cs with
    | some (receiver, function) => some (some receiver, function)
    | none => some (none, cs)

/-- The text before the type arguments of a receiver. -/
def baseName (receiver : List Char) : List Char := receiver.takeWhile (· != '[')

/-- Reads a key in any of its spellings. -/
def parse? (spec : String) : Option OverrideKey := do
  let (package, member) ← cut? ['.'] spec.toList
  let (receiver, function) ← splitMember? member
  let key : OverrideKey := {
    package := String.ofList package
    receiver := receiver.map fun r => String.ofList (baseName r)
    function := String.ofList function }
  if isIdentifier key.package && isIdentifier key.function && key.receiver.all isIdentifier then
    some key
  else none

/-- The order in which keys are listed: by package, plain functions before methods, by receiver,
by function. -/
def le (a b : OverrideKey) : Bool :=
  if a.package != b.package then decide (a.package < b.package)
  else if a.receiver != b.receiver then
    match a.receiver, b.receiver with
    | none, _ => true
    | some _, none => false
    | some r, some s => decide (r < s)
  else decide (a.function ≤ b.function)

end OverrideKey

/-- The bodies that are given for some functions. -/
structure OverrideTable where
  entries : List (OverrideKey × String)

namespace OverrideTable

/-- A table without entries. -/
def empty : OverrideTable := ⟨[]⟩

/-- The body for a key. -/
def get? (t : OverrideTable) (key : OverrideKey) : Option String := t.entries.lookup key

/-- Sets the body for a key, in place of an earlier one. -/
def insert (t : OverrideTable) (key : OverrideKey) (body : String) : OverrideTable :=
  ⟨(key, body) :: t.entries.filter fun e => e.1 != key⟩

/-- Takes over all entries of another table, in place of earlier ones. -/
def extend (t other : OverrideTable) : OverrideTable :=
  other.entries.foldr (fun e t => t.insert e.1 e.2) t

/-- The entries in the order of their keys. -/
def toList (t : OverrideTable) : List (OverrideKey × String) :=
  t.entries.mergeSort fun a b => a.1.le b.1

/-- Adds pairs of a key and a body in order, or gives back the first key that is malformed. -/
def insertPairs (t : OverrideTable) : List (String × String) → Except String OverrideTable
  | [] => .ok t
  | (spec, body) :: pairs =>
    match OverrideKey.parse? spec with
    | some key => (t.insert key body).insertPairs pairs
    | none => .error spec

/-- The table of some pairs; of two pairs for one key the later one counts. -/
def ofPairs (pairs : List (String × String)) : Except String OverrideTable :=
  empty.insertPairs pairs

/-- Reads an entry of the form `KEY=BODY`, or gives back the text that is no key. -/
def parseEntry (entry : String) : Except String (OverrideKey × String) :=
  match cut? ['='] entry.toList with
  | none => .error entry
  | some (spec, body) =>
    let spec := String.ofList (trim spec)
    match OverrideKey.parse? spec with
    | some key => .ok (key, String.ofList body)
    | none => .error spec

end OverrideTable

end Understudy.Stub
