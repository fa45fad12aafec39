import Understudy.Yaml.TokenStream

/-!
# Nodes

The tree that a YAML text describes: scalars, sequences and mappings. A value that is left out is
an empty plain scalar, and a place where a name refers to another node holds the number of that
node. The text has to hold one document at most (`Document.parse?`).

A node with a name gets the number of different names that were given before it. So a name that
is given again leads to a new number, but does not count again: two nodes can have the same
number, and then the one that begins later has it, for all references in the document.

The functions that read tokens have a counter that ends their recursion: it is larger than the
number of steps that a list of tokens allows.
-/

set_option autoImplicit false

namespace Understudy.Yaml

/-- A node of a document. Tags of collections have no meaning here and are left out. -/
inductive Node where
  | scalar (style : Style) (tag : Option Tag) (text : String)
  | sequence (items : List Node)
  /-- The entries in the order of the text; a key can occur more than once. -/
  | mapping (entries : List (Node × Node))
  /-- Another node, by its number. -/
  | reference (number : Nat)
  deriving Repr

namespace Node

/-- What stands for a node that is left out. -/
def missing : Node := .scalar .plain none ""

end Node

/-- A node that was given a name. -/
structure NamedNode where
  /-- How many nodes with a name begin before it. -/
  rank : Nat
  number : Nat
  node : Node
  deriving Repr

/-- A document: its node, and those of its nodes that have names. -/
structure Document where
  root : Node
  named : List NamedNode
  deriving Repr

namespace Document

/-- The node with a number: of several the one that begins last. -/
def nodeWith? (d : Document) (number : Nat) : Option Node :=
  let found := (d.named.filter (·.number == number)).foldl (fun best n =>
    match best with
    | some (m : NamedNode) => if n.rank < m.rank then some m else some n
    | none => some n) none
  found.map (·.node)

/-- What stands at a place: the node there, or the one that it refers to. That one is never a
reference itself. -/
def at? (d : Document) : Node → Option Node
  | .reference number => d.nodeWith? number
  | n => some n

end Document

/-! ## Reading tokens -/

/-- The tokens that are left, and what is known about names. -/
structure Feed where
  tokens : List Token
  /-- The names that were given, each once, with the number that was given last. -/
  numbers : List (String × Nat)
  /-- How many nodes with a name have begun. -/
  begun : Nat
  /-- The nodes with a name that have ended. -/
  named : List NamedNode

/-- Reads from a list of tokens. -/
abbrev Reader := StateT Feed Option

namespace Reader

/-- The next token. -/
def peek : Reader (Option Token) := do return (← get).tokens.head?

/-- Steps over a token. -/
def advance : Reader Unit := modify fun f => { f with tokens := f.tokens.tail }

/-- Steps over a token if it is the given one, and says whether it was. -/
def skipIf (t : Token) : Reader Bool := do
  if (← peek) == some t then
    advance
    return true
  return false

/-- The number that was given last with a name. -/
def lookUp (name : String) : Reader Nat := do
  match (← get).numbers.lookup name with
  | some number => return number
  | none => failure

/-- Gives the node that begins here a number, and its rank. -/
def beginNamed (name : String) : Reader (Nat × Nat) := do
  let f ← get
  let number := f.numbers.length
  set { f with
    numbers := (name, number) :: f.numbers.filter (·.1 != name)
    begun := f.begun + 1 }
  return (f.begun, number)

/-- Keeps a node that was given a number. -/
def endNamed (place : Nat × Nat) (node : Node) : Reader Unit :=
  modify fun f => { f with named := { rank := place.1, number := place.2, node } :: f.named }

/-- Reads the name and the tag before a node, in either order. -/
def properties : Reader (Option String × Option TagText) := do
  match ← peek with
  | some (.anchor name) =>
    advance
    match ← peek with
    | some (.tag written) =>
      advance
      return (some name, some written)
    | _ => return (some name, none)
  | some (.tag written) =>
    advance
    match ← peek with
    | some (.anchor name) =>
      advance
      return (some name, some written)
    | _ => return (none, some written)
  | _ => return (none, none)

end Reader

/-! ## Tags -/

/-- The handles that need no definition. -/
def standardHandles : List TagText := [
  { handle := "!", suffix := Tag.ofText "!" },
  { handle := "!!", suffix := Tag.ofText "tag:yaml.org,2002:" }]

/-- The tag in full. -/
def TagText.resolve? (handles : List TagText) (t : TagText) : Option Tag :=
  if t.handle.isEmpty then some t.suffix
  else (handles.find? (·.handle == t.handle)).map (·.suffix ++ t.suffix)

/-! ## Collections and nodes -/

/-- Where a node stands. -/
inductive Context where
  /-- In a flow collection. -/
  | flow
  /-- In a block sequence, or at the top. -/
  | block
  /-- In a block mapping, where the dashes of a sequence may stand below its key. -/
  | entry
  deriving DecidableEq

/-- Whether a token ends a place for a node, which then is left out. -/
def endsPlace (ends : List Token) (t : Option Token) : Bool := t.all ends.contains

mutual

/-- Reads a node. -/
def readNode (handles : List TagText) : Nat → Context → Reader Node
  | 0, _ => failure
  | n + 1, context => do
    match ← Reader.peek with
    | some (.reference name) =>
      Reader.advance
      return .reference (← Reader.lookUp name)
    | _ =>
      let (name, written) ← Reader.properties
      let tag ← match written with
        | some t =>
          match t.resolve? handles with
          | some tag => pure (some tag)
          | none => failure
        | none => pure none
      match name with
      | none => readContent handles n context written.isSome tag
      | some name =>
        let place ← Reader.beginNamed name
        let node ← readContent handles n context true tag
        Reader.endNamed place node
        return node

/-- Reads a node without its name and tag. With either of them the node can be left out. -/
def readContent (handles : List TagText) : Nat → Context → Bool → Option Tag → Reader Node
  | 0, _, _, _ => failure
  | n + 1, context, hasProperties, tag => do
    match ← Reader.peek with
    | some (.scalar style text) =>
      Reader.advance
      return .scalar style tag text
    | some .flowSequenceStart =>
      Reader.advance
      return .sequence (← readFlowItems handles n true)
    | some .flowMappingStart =>
      Reader.advance
      return .mapping (← readFlowEntries handles n true)
    | t =>
      if t == some .blockEntry && context == .entry then
        return .sequence (← readDashes handles n)
      else if t == some .blockSequenceStart && context != .flow then
        Reader.advance
        return .sequence (← readBlockItems handles n)
      else if t == some .blockMappingStart && context != .flow then
        Reader.advance
        return .mapping (← readBlockEntries handles n)
      else if hasProperties then return .scalar .plain tag ""
      else failure

/-- Reads a node, or nothing before one of some tokens. -/
def readPlace (handles : List TagText) : Nat → Context → List Token → Reader Node
  | 0, _, _ => failure
  | n + 1, context, ends => do
    if endsPlace ends (← Reader.peek) then return .missing
    else readNode handles n context

/-- Reads the entries of a block sequence. -/
def readBlockItems (handles : List TagText) : Nat → Reader (List Node)
  | 0 => failure
  | n + 1 => do
    if ← Reader.skipIf .blockEnd then return []
    if !(← Reader.skipIf .blockEntry) then failure
    let item ← readPlace handles n .block [.blockEntry, .blockEnd]
    return item :: (← readBlockItems handles n)

/-- Reads the entries of a sequence whose dashes stand below a key. -/
def readDashes (handles : List TagText) : Nat → Reader (List Node)
  | 0 => failure
  | n + 1 => do
    if !(← Reader.skipIf .blockEntry) then return []
    let item ← readPlace handles n .block [.blockEntry, .key, .value, .blockEnd]
    return item :: (← readDashes handles n)

/-- Reads the entries of a block mapping. -/
def readBlockEntries (handles : List TagText) : Nat → Reader (List (Node × Node))
  | 0 => failure
  | n + 1 => do
    let ends := [Token.key, .value, .blockEnd]
    if ← Reader.skipIf .blockEnd then return []
    if !(← Reader.skipIf .key) then failure
    let key ← readPlace handles n .entry ends
    let value ← if ← Reader.skipIf .value then readPlace handles n .entry ends else pure .missing
    return (key, value) :: (← readBlockEntries handles n)

/-- Reads the entries of a flow sequence. An entry can be a mapping of one key without braces. -/
def readFlowItems (handles : List TagText) : Nat → Bool → Reader (List Node)
  | 0, _ => failure
  | n + 1, isFirst => do
    if ← Reader.skipIf .flowSequenceEnd then return []
    if !isFirst && !(← Reader.skipIf .flowEntry) then failure
    if ← Reader.skipIf .flowSequenceEnd then return []
    let item ← if ← Reader.skipIf .key then do
        let entry ← readPair handles n .flowSequenceEnd
        pure (.mapping [entry])
      else readNode handles n .flow
    return item :: (← readFlowItems handles n false)

/-- Reads the entries of a flow mapping. A key without a question mark before it and a colon behind
it has no value. -/
def readFlowEntries (handles : List TagText) : Nat → Bool → Reader (List (Node × Node))
  | 0, _ => failure
  | n + 1, isFirst => do
    if ← Reader.skipIf .flowMappingEnd then return []
    if !isFirst && !(← Reader.skipIf .flowEntry) then failure
    if ← Reader.skipIf .flowMappingEnd then return []
    let entry ← if ← Reader.skipIf .key then readPair handles n .flowMappingEnd
      else do
        let key ← readNode handles n .flow
        pure (key, .missing)
    return entry :: (← readFlowEntries handles n false)

/-- Reads a key and its value in a flow collection that ends with `last`. -/
def readPair (handles : List TagText) : Nat → Token → Reader (Node × Node)
  | 0, _ => failure
  | n + 1, last => do
    let key ← readPlace handles n .flow [.value, .flowEntry, last]
    let value ← if ← Reader.skipIf .value then readPlace handles n .flow [.flowEntry, last]
      else pure .missing
    return (key, value)

end

/-! ## Documents -/

/-- What directives have said so far. -/
structure Directives where
  hasVersion : Bool
  handles : List TagText

/-- Reads the directives before a document, and gives back the handles that they define. A version
can be given once, and so can a handle. -/
def readDirectives : Directives → List Token → Option (List TagText × List Token)
  | d, .version major minor :: ts =>
    if d.hasVersion || major != 1 || (minor != 1 && minor != 2) then none
    else readDirectives { d with hasVersion := true } ts
  | d, .handle t :: ts =>
    if d.handles.any (·.handle == t.handle) then none
    else readDirectives { d with handles := t :: d.handles } ts
  | d, ts => some (d.handles ++ standardHandles, ts)

/-- Whether a document that begins with a mark is empty before a token. -/
def endsDocument : Token → Bool
  | .version .. | .handle _ | .documentStart | .documentEnd => true
  | _ => false

/-- Reads the only document of a text. -/
def readDocument (ts : List Token) : Option (Document × List Token) := do
  let read (handles : List TagText) (ts : List Token) : Option (Document × List Token) := do
    let (root, feed) ← readNode handles (4 * ts.length + 4) .block ⟨ts, [], 0, []⟩
    return ({ root, named := feed.named }, feed.tokens)
  match ts with
  | .version .. :: _ | .handle _ :: _ | .documentStart :: _ =>
    match ← readDirectives ⟨false, []⟩ ts with
    | (handles, .documentStart :: rest) =>
      if rest.head?.all endsDocument then return ({ root := .missing, named := [] }, rest)
      else read handles rest
    | _ => none
  | _ => read standardHandles ts

namespace Document

/-- The document of a text, if the text has one. -/
def parse? (text : String) : Option (Option Document) := do
  match ← tokens? text with
  | [] => return none
  | ts =>
    let (document, rest) ← readDocument ts
    guard (rest.all (· == .documentEnd))
    return some document

end Document

end Understudy.Yaml
