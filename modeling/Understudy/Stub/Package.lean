import Understudy.Modules.Package
import Understudy.Source.ImportPath
import Understudy.Source.Printer
import Understudy.Stub.Decl

/-!
# Package stubs

The stub of a package merges its files: the imports that may be kept, then for each file its
values, its types by name and its functions, and at the end the sentinel type. Files that are
generated themselves are left out.

Imports are scoped to a file in the sources and to the whole stub here, so of several imports
that bind one name the first is taken.
-/

set_option autoImplicit false

namespace Understudy.Stub

open Source Modules

/-- Which imports of other modules a stub may keep. -/
structure ImportPolicy where
  /-- The paths that are allowed explicitly. -/
  allowed : List String
  /-- The paths of the packages that are stubbed together. -/
  stubbed : List String

namespace ImportPolicy

/-- The policy for a run over some packages. -/
def ofPackages (allowed : List String) (packages : List Package) : ImportPolicy :=
  { allowed, stubbed := packages.map Package.path }

/-- Whether an import is kept. A path without a dot belongs to the standard library, except for
the pseudo-package of C. -/
def keeps (policy : ImportPolicy) (path : String) : Bool :=
  !(path.toList.contains '.' || path == "C") || policy.allowed.contains path ||
    policy.stubbed.contains path

end ImportPolicy

/-- Imports with equal keys are the same for a stub: those that bind one name, or bind nothing
and have one path. -/
def importKey (i : Import) : String :=
  i.boundName?.getD (i.name.getD "" ++ " " ++ i.path)

/-- The imports that are kept, each key once; `seen` are the keys so far. -/
def keptImports (policy : ImportPolicy) (seen : List String) : List Import → List Import
  | [] => []
  | i :: is =>
    if policy.keeps i.path && !seen.contains (importKey i) then
      i :: keptImports policy (importKey i :: seen) is
    else keptImports policy seen is

/-- Type entries without those whose name a later one has too. -/
def lastOfName : List TypeSpec → List TypeSpec
  | [] => []
  | spec :: specs =>
    if specs.any (·.name == spec.name) then lastOfName specs else spec :: lastOfName specs

/-- The types of a file by increasing name. -/
def typesByName (file : SourceFile) : List TypeSpec :=
  (lastOfName file.typeSpecs).mergeSort fun a b => decide (a.name ≤ b.name)

/-- The stub declarations of a file. -/
def stubFile (ctx : Context) (file : SourceFile) : Except Failure (List StubDecl) :=
  match stubFuncs ctx (funcDecls file) with
  | (_, some failure) => .error failure
  | (funcs, none) =>
    .ok (stubValues ctx file ++ (typesByName file).map (stubType ctx) ++ funcs)

/-- The stub declarations of some files. -/
def stubFiles (ctx : Context) : List SourceFile → Except Failure (List StubDecl)
  | [] => .ok []
  | file :: files => do
    let decls ← stubFile ctx file
    return decls ++ (← stubFiles ctx files)

/-- The declaration of the type that stands in for erased embedded fields. -/
def sentinelDecl : StubDecl := .type embedSentinel "" false opaqueType

/-- A stub before it is laid out. -/
structure PackageStub where
  name : String
  imports : List Import
  decls : List StubDecl

namespace PackageStub

/-- The files of a package that are stubbed. -/
def sources (package : Package) : List SourceFile :=
  (package.files.map PackageFile.source).filter fun file => !file.isGenerated

/-- The imports of the stub of a package. -/
def importsOf (policy : ImportPolicy) (package : Package) : List Import :=
  keptImports policy [] ((sources package).flatMap SourceFile.imports)

/-- What the declarations of the stub of a package depend on. -/
def contextOf (policy : ImportPolicy) (overrides : OverrideTable) (package : Package) :
    Context where
  package := package.name
  kept := (importsOf policy package).filterMap Import.boundName?
  overrides := overrides

/-- The stub of a package. -/
def ofPackage (policy : ImportPolicy) (overrides : OverrideTable) (package : Package) :
    Except Failure PackageStub := do
  let decls ← stubFiles (contextOf policy overrides package) (sources package)
  return {
    name := package.name
    imports := importsOf policy package
    decls := decls ++ [sentinelDecl] }

/-- The text of a stub, every import and declaration on its own. -/
def render (stub : PackageStub) : String :=
  "package " ++ stub.name ++ "\n\n" ++
    String.join (stub.imports.map fun i => "import " ++ printImport i ++ "\n\n") ++
    renderDecls stub.decls

end PackageStub

end Understudy.Stub
