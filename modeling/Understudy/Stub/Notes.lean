import Understudy.Report
import Understudy.Stub.Package

/-!
# Notes on stubs

What the log says about the making of a stub: which declarations are stubbed, which are left out
and why, and which parts of types are dropped by erasing. A note on a part of a type is taken each
time the part is written, and a type whose erasing is tested first is written once more for the
test; so a note can stand in the log several times.
-/

set_option autoImplicit false

namespace Understudy.Stub

open Source Modules

/-! ## Notes on types -/

/-- A note on an entry that is left out of a struct or an interface. -/
def dropNote (what : String) (f : Fidelity) (type : TypeExpr) : Note :=
  { level := .debug, message := "dropping " ++ what ++ " " ++ renderType f type }

mutual

/-- The notes taken when a type is written. -/
def typeNotes (f : Fidelity) : TypeExpr → List Note
  | .ident _ | .qualified _ _ | .literal _ | .unsupported _ => []
  | .pointer elem | .ellipsis elem | .chan _ elem | .tilde elem => typeNotes f elem
  | .array length elem => lengthNotes f length ++ typeNotes f elem
  | .func signature => signatureNotes f signature
  | .map key value => typeNotes f key ++ typeNotes f value
  | .struct fields => structNotes f false fields
  | .interface elems => interfaceNotes f elems
  | .instantiated base args =>
    typeNotes f base ++
      if f.isErasing && renderType f base == opaqueType then [] else typesNotes f args
  | .union terms => typesNotes f terms

/-- The notes taken when an array length is written. -/
def lengthNotes (f : Fidelity) : Option TypeExpr → List Note
  | none => []
  | some length => typeNotes f length

/-- The notes taken when some types are written. -/
def typesNotes (f : Fidelity) : List TypeExpr → List Note
  | [] => []
  | type :: types => typeNotes f type ++ typesNotes f types

/-- The notes taken when some fields are written. -/
def fieldsNotes (f : Fidelity) : List FieldGroup → List Note
  | [] => []
  | .mk _ type :: fields => typeNotes f type ++ fieldsNotes f fields

/-- The notes taken when results are written. -/
def resultsNotes (f : Fidelity) : Option (List FieldGroup) → List Note
  | none => []
  | some fields => fieldsNotes f fields

/-- The notes taken when a signature is written. -/
def signatureNotes (f : Fidelity) : Signature → List Note
  | .mk _ params results => fieldsNotes f params ++ resultsNotes f results

/-- The notes taken when the entries of a struct are written. -/
def structNotes (f : Fidelity) (used : Bool) : List FieldGroup → List Note
  | [] => []
  | .mk names type :: fields =>
    let written := typeNotes f type
    if names.isEmpty then
      if erases f type then
        let dropped :=
          if used then written ++ [dropNote "second erased embedded field" f type] else []
        written ++ dropped ++ structNotes f true fields
      else written ++ written ++ structNotes f used fields
    else written ++ structNotes f used fields

/-- The notes taken when the entries of an interface are written. -/
def interfaceNotes (f : Fidelity) : List InterfaceElem → List Note
  | [] => []
  | .method _ signature :: elems => signatureNotes f signature ++ interfaceNotes f elems
  | .embedded type :: elems =>
    let dropped := if f.isErasing then [dropNote "embedded interface element" f type] else []
    typeNotes f type ++ dropped ++ interfaceNotes f elems

end

/-! ## Notes on declarations -/

/-- A note that a declaration is stubbed. -/
def stubbingNote (what name : String) : Note :=
  { level := .trace, message := "stubbing " ++ what ++ " " ++ name }

/-- The notes on the `i`-th name of an entry of values. -/
def valueNotes (ctx : Context) (kind : ValueKind) (spec : ValueSpec) (i : Nat) (name : String) :
    List Note :=
  let f := ctx.fidelity
  stubbingNote kind.keyword name ::
    match (selectedValue spec i).filter Initializer.isLiteral, kind, spec.type with
    | some _, _, _ => ((keptType ctx spec).map (typeNotes f)).getD []
    | none, .var, some type => typeNotes f type
    | none, _, _ => [{
        level := .debug
        message := "omitting " ++ kind.keyword ++ " " ++ ctx.package ++ "." ++ name ++
          ": value is not a literal" }]

/-- The notes on an entry of values. -/
def valueSpecNotes (ctx : Context) (kind : ValueKind) (spec : ValueSpec) : List Note :=
  (spec.type.map (typeNotes ctx.fidelity)).getD [] ++
    spec.names.zipIdx.flatMap fun (name, i) => valueNotes ctx kind spec i name

/-- The notes on an entry of types. -/
def typeSpecNotes (ctx : Context) (spec : TypeSpec) : List Note :=
  let f := ctx.fidelity
  fieldsNotes f spec.typeParams ++
    if spec.isAlias then stubbingNote "alias" spec.name :: typeNotes f spec.type
    else
      match spec.type with
      | .struct fields => stubbingNote "struct" spec.name :: structNotes f false fields
      | .interface elems => stubbingNote "interface" spec.name :: interfaceNotes f elems
      | type => stubbingNote "type" spec.name :: typeNotes f type

/-- The notes on a function that is stubbed. -/
def funcOnNotes (ctx : Context) (decl : FuncDecl) (receiver : Option Receiver) : List Note :=
  let f := ctx.fidelity
  let key := overrideKey ctx decl receiver
  (receiver.map fun r => typeNotes f r.type).getD [] ++
    fieldsNotes f decl.signature.typeParams ++ signatureNotes f decl.signature ++
    stubbingNote "function" key.text ::
    if (ctx.overrides.get? key).isSome then
      [{ level := .trace, message := "using stub body for " ++ key.text }]
    else []

/-- The notes on a function. -/
def funcNotes (ctx : Context) (decl : FuncDecl) : List Note :=
  match calling decl with
  | .error _ => []
  | .ok .unnamed => [{
      level := .debug
      message := "skipping " ++ ctx.package ++ "." ++ decl.name ++ ": unnamed receiver" }]
  | .ok .plain => if isExported decl.name then funcOnNotes ctx decl none else []
  | .ok (.method r) => if isExported decl.name then funcOnNotes ctx decl (some r) else []

/-- The functions before the first one with a malformed receiver. -/
def wellFormedFuncs (decls : List FuncDecl) : List FuncDecl :=
  decls.takeWhile fun decl => (calling decl).isOk

/-- The notes on a file. -/
def fileNotes (ctx : Context) (file : SourceFile) : List Note :=
  (valueSpecs file).flatMap (fun (kind, spec) => valueSpecNotes ctx kind spec) ++
    (typesByName file).flatMap (typeSpecNotes ctx) ++
    (wellFormedFuncs (funcDecls file)).flatMap (funcNotes ctx)

/-- The notes on some files, up to the first one that cannot be stubbed. -/
def filesNotes (ctx : Context) : List SourceFile → List Note
  | [] => []
  | file :: files =>
    fileNotes ctx file ++ if (stubFile ctx file).isOk then filesNotes ctx files else []

/-- The notes on a package. -/
def packageNotes (policy : ImportPolicy) (overrides : OverrideTable) (package : Package) :
    List Note :=
  let generated := package.files.filter fun file => file.source.isGenerated
  { level := .debug, message := "generating stubs for package " ++ package.path } ::
    generated.map (fun file =>
      { level := .debug, message := "skipping generated file " ++ file.path.text }) ++
    filesNotes (PackageStub.contextOf policy overrides package) (PackageStub.sources package)

end Understudy.Stub
