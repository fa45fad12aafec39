import Understudy.Source.TypeParser
import Understudy.Text.Pieces

/-!
# Parsing files

A file is a package clause and declarations with semicolons between them. Only the shape of the
declarations is read; what stands between the braces of a function and behind an equals sign is
found by its brackets and kept as text.
-/

set_option autoImplicit false

namespace Understudy.Source

open Understudy.Source.Parser

/-! ## Declarations -/

/-- The text between the quotes of a string literal. -/
def unquote (literal : String) : String := String.ofList (literal.toList.drop 1).dropLast

/-- Reads one import. -/
def importSpec : Parser Import := do
  let name ← match ← peek with
    | some .ident => some <$> ident
    | some .dot => do
      advance
      pure (some ".")
    | _ => pure none
  match ← remaining with
  | t :: rest =>
    if t.kind == .string || t.kind == .rawString then
      continueAt rest
      return { name, path := unquote t.text }
    else fail "expected import path"
  | [] => fail "expected import path"

/-- Whether the tokens of an initializer are a basic literal, or a number with a sign. -/
def isLiteralRun : List Token → Bool
  | [t] => t.kind.isLiteral
  | [sign, t] => (sign.kind == .plus || sign.kind == .minus) && t.kind == .number
  | _ => false

/-- Reads an initializer: a balanced run of tokens up to the end of a list entry. -/
def initializer : Parser Initializer := do
  match Token.splitBalanced [.comma, .semi] 0 (← remaining) with
  | ([], _) => fail "expected expression"
  | (run, rest) =>
    continueAt rest
    return { text := Token.spell run, isLiteral := isLiteralRun run }

/-- Reads an entry of a `const` or `var` declaration. -/
def valueSpec : Parser ValueSpec := do
  let names ← idents
  let type ← match ← peek with
    | none | some .assign | some .semi | some .rparen => pure none
    | some _ => some <$> typeExpr
  let values ← if ← eat .assign then separated .comma initializer else pure []
  return { names, type, values }

/-- Whether the bracket after the name of a declared type holds type parameters, not the length
of an array. -/
def beginsTypeParams (ts : List Token) : Bool :=
  match (ts.take 3).map Token.kind with
  | [.lbrack, .ident, kind] =>
    [Kind.ident, .comma, .tilde, .kwInterface, .lbrack, .kwFunc, .kwMap, .kwChan,
      .kwStruct].contains kind
  | _ => false

/-- Reads an entry of a `type` declaration. -/
def typeSpec : Parser TypeSpec := do
  let name ← ident
  let typeParams ← if beginsTypeParams (← remaining) then typeParams typeExpr else pure []
  let isAlias ← eat .assign
  return { name, typeParams, isAlias, type := ← typeExpr }

/-- Reads the body of a function and keeps the text between its braces. -/
def body : Parser String := do
  match ← remaining with
  | [] => fail "unterminated function body"
  | _ :: ts =>
    match Token.splitClose? 0 ts with
    | none => fail "unterminated function body"
    | some (run, close, rest) =>
      continueAt rest
      return Token.inner run close

/-- Reads a function or method. -/
def funcDecl : Parser FuncDecl := do
  let _ ← expect .kwFunc "'func'"
  let receiver ← if ← isAt .lparen then some <$> params typeExpr else pure none
  let name ← ident
  let typeParams ← if ← isAt .lbrack then typeParams typeExpr else pure []
  let params ← params typeExpr
  let results ← results typeExpr
  let body ← if ← isAt .lbrace then some <$> body else pure none
  return { receiver, name, signature := .mk typeParams params results, body }

/-- Reads one entry, or entries in parentheses. -/
def group {α : Type} (spec : Parser α) : Parser (List α) := do
  if ← eat .lparen then semicolonList .rparen "';' or ')'" spec else return [← spec]

/-! ## Files -/

/-- Reads the semicolon after a declaration. The last one may be missing. -/
def endOfDecl : Parser Unit := do
  match ← peek with
  | none => return
  | some _ =>
    unless ← eat .semi do fail "expected ';' after declaration"

/-- A declaration of a file: the imports of an `import` declaration, or any other. -/
inductive TopLevel where
  | imports (imports : List Import)
  | decl (decl : Decl)

/-- Reads a declaration that begins with a token of the given kind. -/
def topLevel : Kind → Parser TopLevel
  | .kwImport => do
    advance
    return .imports (← group importSpec)
  | .kwConst => do
    advance
    return .decl (.const (← group valueSpec))
  | .kwVar => do
    advance
    return .decl (.var (← group valueSpec))
  | .kwType => do
    advance
    return .decl (.type (← group typeSpec))
  | .kwFunc => do return .decl (.func (← funcDecl))
  | _ => fail "expected declaration"

/-- Reads declarations up to the end. -/
def topLevelsLoop : Nat → Parser (List TopLevel)
  | 0 => exhaust
  | n + 1 => do
    match ← peek with
    | none => return []
    | some .semi =>
      advance
      topLevelsLoop n
    | some kind =>
      let first ← topLevel kind
      endOfDecl
      return first :: (← topLevelsLoop n)

/-- The imports among the declarations of a file. -/
def importsOf (items : List TopLevel) : List Import :=
  items.flatMap fun
    | .imports imports => imports
    | .decl _ => []

/-- The declarations of a file other than imports. -/
def declsOf (items : List TopLevel) : List Decl :=
  items.filterMap fun
    | .imports _ => none
    | .decl decl => some decl

/-- Whether a line says that its file is generated. -/
def isGeneratedMark (line : List Char) : Bool :=
  let line := if line.getLast? == some '\r' then line.dropLast else line
  match "// Code generated ".toList.isPrefixOf? line with
  | some rest => " DO NOT EDIT.".toList.isSuffixOf rest
  | none => false

/-- Whether a line of the text before the package clause says that the file is generated. -/
def isGeneratedHeader (header : String) : Bool :=
  (Text.pieces (· == '\n') header.toList).any isGeneratedMark

/-- Reads a whole file. -/
def file : Parser SourceFile := do
  let header := ((← remaining).head?.map Token.gap).getD ""
  let _ ← expect .kwPackage "package clause"
  let package ← ident
  endOfDecl
  let items ← topLevelsLoop ((← remaining).length + 1)
  return {
    package
    imports := importsOf items
    decls := declsOf items
    isGenerated := isGeneratedHeader header }

/-! ## Messages -/

/-- What stands in front of the tokens that were not read. -/
def foundText : List Token → String
  | [] => "end of file"
  | t :: _ => if t.text.isEmpty then "newline" else Text.quote t.text

/-- The byte offset at which a parser of `all` gave up in front of `rest`: the start of the
current token, or the end of the last one. -/
def faultOffset (all rest : List Token) : Nat :=
  match rest with
  | t :: _ => t.start
  | [] => (all.getLast?.map Token.stop).getD 0

/-- The syntax error of a parser of the tokens `all` of a source text. -/
def ParseFault.error (source : String) (all : List Token) : ParseFault → SyntaxError
  | .unmet message rest =>
    .atOffset source (faultOffset all rest) (message ++ ", found " ++ foundText rest)
  | .exhausted => .atOffset source 0 "nested too deeply"

/-- Parses a source file. -/
def SourceFile.parse (source : String) : Except SyntaxError SourceFile := do
  let tokens ← tokenize source
  match file tokens with
  | .ok (parsed, _) => return parsed
  | .error fault => throw (fault.error source tokens)

end Understudy.Source
