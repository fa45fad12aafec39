import Understudy.Failure
import Understudy.Source.Identifier
import Understudy.Source.TypeText
import Understudy.Stub.Override

/-!
# Stub declarations

How the declarations of a source file become the declarations of its stub. Constants and
variables keep a literal value or, for variables, their type; all types are kept, and every
exported function keeps its signature and gets a body that panics unless one is given for it.
References to packages that may not be imported are erased throughout.
-/

set_option autoImplicit false

namespace Understudy.Stub

open Source

/-- The body of a function for which none is given. -/
def defaultBody : String := "panic(\"stub\")"

/-- What the declarations of a package depend on. -/
structure Context where
  /-- The name of the package. -/
  package : String
  /-- The names of the packages whose types are kept. -/
  kept : List String
  overrides : OverrideTable

namespace Context

/-- The way in which types are written. -/
def fidelity (ctx : Context) : Fidelity := .erasing ctx.kept

end Context

/-- Whether values are constants or variables. -/
inductive ValueKind where
  | const
  | var
  deriving Repr, DecidableEq

/-- The keyword of a declaration of values. -/
def ValueKind.keyword : ValueKind → String
  | const => "const"
  | var => "var"

/-- A declaration of a stub. -/
inductive StubDecl where
  | value (kind : ValueKind) (name : String) (type value : Option String)
  | type (name typeParams : String) (isAlias : Bool) (type : String)
  | func (heading body : String)
  deriving Repr, DecidableEq

/-- The text of a declaration, with a blank line after it. -/
def StubDecl.render : StubDecl → String
  | .value kind name typeText valueText =>
    let typed := (typeText.map (" " ++ ·)).getD ""
    let assigned := (valueText.map (" = " ++ ·)).getD ""
    kind.keyword ++ " " ++ name ++ typed ++ assigned ++ "\n\n"
  | .type name typeParams isAlias typeText =>
    "type " ++ name ++ typeParams ++ (if isAlias then " = " else " ") ++ typeText ++ "\n\n"
  | .func heading body => heading ++ " \x7b\n" ++ body ++ "\n\x7d\n\n"

/-- The text of some declarations. -/
def renderDecls (decls : List StubDecl) : String := String.join (decls.map StubDecl.render)

/-! ## Values -/

/-- The initializer of the `i`-th name: its own if every name has one, otherwise the first. -/
def selectedValue (spec : ValueSpec) (i : Nat) : Option Initializer :=
  if spec.values.length == spec.names.length then spec.values[i]? else spec.values.head?

/-- The type of an entry that is shown beside a literal value; an erased one is not. -/
def keptType (ctx : Context) (spec : ValueSpec) : Option TypeExpr :=
  spec.type.filter fun type => !erases ctx.fidelity type

/-- The stub of the `i`-th name of an entry, if it keeps a literal or, as a variable, a type. -/
def stubValue? (ctx : Context) (kind : ValueKind) (spec : ValueSpec) (i : Nat) (name : String) :
    Option StubDecl :=
  match (selectedValue spec i).filter Initializer.isLiteral, kind, spec.type with
  | some value, _, _ =>
    some (.value kind name ((keptType ctx spec).map (renderType ctx.fidelity)) (some value.text))
  | none, .var, some type => some (.value .var name (some (renderType ctx.fidelity type)) none)
  | none, _, _ => none

/-- The stubs of an entry of a `const` or `var` declaration. -/
def stubValueSpec (ctx : Context) (kind : ValueKind) (spec : ValueSpec) : List StubDecl :=
  spec.names.zipIdx.filterMap fun (name, i) => stubValue? ctx kind spec i name

/-- The entries of constants and variables of a file, in order. -/
def valueSpecs (file : SourceFile) : List (ValueKind × ValueSpec) :=
  file.decls.flatMap fun
    | .const specs => specs.map (ValueKind.const, ·)
    | .var specs => specs.map (ValueKind.var, ·)
    | _ => []

/-- The stubs of the constants and variables of a file. -/
def stubValues (ctx : Context) (file : SourceFile) : List StubDecl :=
  (valueSpecs file).flatMap fun (kind, spec) => stubValueSpec ctx kind spec

/-! ## Types -/

/-- A struct or interface with one entry on each line. -/
def block (keyword : String) (lines : List String) : String :=
  if lines.isEmpty then keyword ++ "\x7b\x7d"
  else keyword ++ " \x7b\n" ++ String.join (lines.map fun l => "\t" ++ l ++ "\n") ++ "\x7d"

/-- The right-hand side of a type declaration that is no alias. -/
def declaredType (f : Fidelity) : TypeExpr → String
  | .struct fields => block "struct" (structLines f false fields)
  | .interface elems => block "interface" (interfaceLines f elems)
  | type => renderType f type

/-- The stub of a type. -/
def stubType (ctx : Context) (spec : TypeSpec) : StubDecl :=
  .type spec.name (renderTypeParams ctx.fidelity spec.typeParams) spec.isAlias
    (if spec.isAlias then renderType ctx.fidelity spec.type
     else declaredType ctx.fidelity spec.type)

/-! ## Functions -/

/-- The receiver of a method that can be stubbed: one entry with one name. -/
structure Receiver where
  name : String
  type : TypeExpr

/-- What a function is called on. -/
inductive Calling where
  /-- Nothing: a plain function. -/
  | plain
  /-- A receiver without a name. -/
  | unnamed
  | method (receiver : Receiver)

/-- What a function is called on, or what is wrong with its receiver. -/
def calling (decl : FuncDecl) : Except ReceiverFault Calling :=
  match decl.receiver with
  | none => .ok .plain
  | some [.mk [] _] => .ok .unnamed
  | some [.mk [name] type] => .ok (.method { name, type })
  | some [.mk names _] => .error (.names names.length)
  | some fields => .error (.entries fields.length)

/-- The key under which a body can be given for a function. -/
def overrideKey (ctx : Context) (decl : FuncDecl) (receiver : Option Receiver) : OverrideKey where
  package := ctx.package
  receiver := receiver.bind fun r => r.type.receiverName?
  function := decl.name

/-- The stub of a function. -/
def stubFuncOn (ctx : Context) (decl : FuncDecl) (receiver : Option Receiver) : StubDecl :=
  let f := ctx.fidelity
  let on := match receiver with
    | some r => "(" ++ r.name ++ " " ++ renderType f r.type ++ ") "
    | none => ""
  .func
    ("func " ++ on ++ decl.name ++ renderTypeParams f decl.signature.typeParams ++
      renderSignature f decl.signature)
    ((ctx.overrides.get? (overrideKey ctx decl receiver)).getD defaultBody)

/-- The stub of a function, if it has one: its name has to be exported, and a receiver has to
have a name. -/
def stubFunc? (ctx : Context) (decl : FuncDecl) : Except ReceiverFault (Option StubDecl) := do
  match ← calling decl with
  | .unnamed => return none
  | .plain => return if isExported decl.name then some (stubFuncOn ctx decl none) else none
  | .method r => return if isExported decl.name then some (stubFuncOn ctx decl (some r)) else none

/-- The functions and methods of a file, in order. -/
def funcDecls (file : SourceFile) : List FuncDecl :=
  file.decls.filterMap fun
    | .func decl => some decl
    | _ => none

/-- The stubs of some functions up to the first malformed receiver, and the failure there. -/
def stubFuncs (ctx : Context) : List FuncDecl → List StubDecl × Option Failure
  | [] => ([], none)
  | decl :: decls =>
    match stubFunc? ctx decl with
    | .error fault => ([], some (.malformedReceiver ctx.package decl.name fault))
    | .ok stub =>
      let (stubs, failure) := stubFuncs ctx decls
      (stub.toList ++ stubs, failure)

end Understudy.Stub
