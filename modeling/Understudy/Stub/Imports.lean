import Understudy.Failure
import Understudy.Source.FileParser
import Understudy.Source.Printer

/-!
# Laying out stubs

The built-in formatter reads a stub, drops the imports that nothing refers to and the repeated
ones, sorts the others with the standard library first, and prints the file.
-/

set_option autoImplicit false

namespace Understudy.Stub

open Source Files

/-! ## Qualifiers -/

/-- The names before a dot that are themselves not behind a dot, outside import declarations.
`importDepth` is the number of open parentheses while inside such a declaration, and `afterDot`
says that the token before is a dot. -/
def qualifiersFrom (importDepth : Option Nat) (afterDot : Bool) : List Token → List String
  | [] => []
  | t :: ts =>
    match importDepth with
    | some depth =>
      match t.kind with
      | .lparen => qualifiersFrom (some (depth + 1)) false ts
      | .rparen => qualifiersFrom (some (depth - 1)) false ts
      | .semi => qualifiersFrom (if depth == 0 then none else some depth) false ts
      | _ => qualifiersFrom (some depth) false ts
    | none =>
      if t.kind == .kwImport then qualifiersFrom (some 0) false ts
      else
        let rest := qualifiersFrom none (t.kind == .dot) ts
        if t.kind == .ident && ts.head?.map Token.kind == some .dot && !afterDot then
          t.text :: rest
        else rest

/-- The package names that a file refers to, as far as its tokens tell. -/
def qualifiers (tokens : List Token) : List String := qualifiersFrom none false tokens

/-! ## Imports -/

/-- Whether an import is needed when the given names are referred to. One that binds no name
always is. -/
def isUsed (used : List String) (i : Import) : Bool :=
  match i.boundName? with
  | some name => used.contains name
  | none => true

/-- The order of imports: the standard library first, then by path, then by name. -/
def importLe (a b : Import) : Bool :=
  if isStandardPath a.path != isStandardPath b.path then isStandardPath a.path
  else if a.path != b.path then decide (a.path < b.path)
  else
    match a.name, b.name with
    | none, _ => true
    | some _, none => false
    | some m, some n => decide (m ≤ n)

/-- The imports that are used, each once and in order. -/
def tidyImports (used : List String) (imports : List Import) : List Import :=
  (imports.filter (isUsed used)).eraseDups.mergeSort importLe

/-- Reads a stub with the names that it refers to. -/
def readStub (text : String) : Except SyntaxError (SourceFile × List String) := do
  let file ← SourceFile.parse text
  return (file, qualifiers (← tokenize text))

/-- The imports that the formatter drops because nothing refers to them. -/
def unusedImports (text : String) : List Import :=
  match readStub text with
  | .ok (file, used) => file.imports.filter fun i => !isUsed used i
  | .error _ => []

/-- Formats the text of a stub. -/
def formatStub (text : String) : Except SyntaxError String := do
  let (file, used) ← readStub text
  return { file with imports := tidyImports used file.imports : SourceFile }.print

/-- Formats the text of a stub that is going to be written to a path. -/
def formatAt (path : DiskPath) (text : String) : Except Failure String :=
  (formatStub text).mapError fun e => .format path e.text

end Understudy.Stub
