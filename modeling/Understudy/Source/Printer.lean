import Understudy.Source.BodyLayout
import Understudy.Source.ImportPath
import Understudy.Source.TypeText

/-!
# Printing files

The canonical text of a source file: one block for each declaration with a blank line between
blocks. Struct and interface types of declarations span several lines, with the types of
neighbouring fields aligned; every other type stands on one line. The imports are printed in the
order given, with a blank line wherever the standard library and other paths meet.
-/

set_option autoImplicit false

namespace Understudy.Source

/-! ## Imports -/

/-- The text of one import. -/
def printImport (i : Import) : String :=
  match i.name with
  | some name => name ++ " \"" ++ i.path ++ "\""
  | none => "\"" ++ i.path ++ "\""

/-- The lines of grouped imports; the flag says to which side the one before belongs. -/
def importLines (before : Option Bool) : List Import → String
  | [] => ""
  | i :: is =>
    let standard := isStandardPath i.path
    let blank := if before.any (· != standard) then "\n" else ""
    blank ++ "\t" ++ printImport i ++ "\n" ++ importLines (some standard) is

/-- The import declaration of a file with imports. -/
def printImports : List Import → String
  | [i] => "import " ++ printImport i
  | is => "import (\n" ++ importLines none is ++ ")"

/-! ## Types of declarations -/

/-- The number of characters of the names of a field. -/
def namesWidth (field : FieldGroup) : Nat := (String.intercalate ", " field.names).length

/-- The width of the widest names in the run of named fields at the front of a list. -/
def runWidth (fields : List FieldGroup) : Nat :=
  ((fields.takeWhile fun field => !field.isEmbedded).map namesWidth).foldl max 0

/-- The lines of a struct. Within a run of named fields the types begin in one column; `width` is
the width of the names in the current run. -/
def alignedFields (width : Option Nat) : List FieldGroup → String
  | [] => ""
  | field :: fields =>
    let type := renderType .verbatim field.type
    if field.isEmbedded then "\t" ++ type ++ "\n" ++ alignedFields none fields
    else
      let width := width.getD (runWidth (field :: fields))
      let names := String.intercalate ", " field.names
      let padding := String.ofList (List.replicate (width + 1 - names.length) ' ')
      "\t" ++ names ++ padding ++ type ++ "\n" ++ alignedFields (some width) fields

/-- The type of a declaration. -/
def printType : TypeExpr → String
  | .struct (field :: fields) => "struct \x7b\n" ++ alignedFields none (field :: fields) ++ "\x7d"
  | .interface (elem :: elems) =>
    let lines := (interfaceLines .verbatim (elem :: elems)).map fun line => "\t" ++ line ++ "\n"
    "interface \x7b\n" ++ String.join lines ++ "\x7d"
  | type => renderType .verbatim type

/-! ## Declarations -/

/-- The text of an entry of a `const` or `var` declaration. -/
def printValueSpec (spec : ValueSpec) : String :=
  let type := match spec.type with
    | some type => " " ++ printType type
    | none => ""
  let values :=
    if spec.values.isEmpty then ""
    else " = " ++ String.intercalate ", " (spec.values.map Initializer.text)
  String.intercalate ", " spec.names ++ type ++ values

/-- The text of an entry of a `type` declaration. -/
def printTypeSpec (spec : TypeSpec) : String :=
  spec.name ++ renderTypeParams .verbatim spec.typeParams ++
    (if spec.isAlias then " =" else "") ++ " " ++ printType spec.type

/-- Every line of a text with a tab before it. Empty lines stay empty. -/
def indentLines (text : String) : String :=
  String.intercalate "\n" ((Text.lines text.toList).map fun line =>
    if line.isEmpty then "" else "\t" ++ String.ofList line)

/-- A declaration of some entries, in parentheses unless there is exactly one. -/
def printGroup (keyword : String) (specs : List String) : String :=
  match specs with
  | [spec] => keyword ++ " " ++ spec
  | specs =>
    keyword ++ " (\n" ++ String.join (specs.map fun spec => indentLines spec ++ "\n") ++ ")"

/-- The text of a function or method. -/
def printFunc (decl : FuncDecl) : String :=
  let receiver := match decl.receiver with
    | some fields => "(" ++ renderParams .verbatim fields ++ ") "
    | none => ""
  let body := match decl.body with
    | some body => " " ++ layoutBody body
    | none => ""
  "func " ++ receiver ++ decl.name ++ renderTypeParams .verbatim decl.signature.typeParams ++
    renderSignature .verbatim decl.signature ++ body

/-- The text of a declaration. -/
def printDecl : Decl → String
  | .const specs => printGroup "const" (specs.map printValueSpec)
  | .var specs => printGroup "var" (specs.map printValueSpec)
  | .type specs => printGroup "type" (specs.map printTypeSpec)
  | .func decl => printFunc decl

/-- The blocks of a file, one for each declaration. -/
def printBlocks (file : SourceFile) : List String :=
  ("package " ++ file.package) ::
    (if file.imports.isEmpty then [] else [printImports file.imports]) ++
    file.decls.map printDecl

/-- The canonical text of a file. -/
def SourceFile.print (file : SourceFile) : String :=
  String.intercalate "\n\n" (printBlocks file) ++ "\n"

end Understudy.Source
