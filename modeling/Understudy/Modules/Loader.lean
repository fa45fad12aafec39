import Understudy.Modules.Manifest
import Understudy.Modules.Package
import Understudy.Modules.Pattern
import Understudy.Modules.Target
import Understudy.Report
import Understudy.Source.FileParser

/-!
# Loading packages

A loader reads the packages of one module for one target. Patterns select directories; of each
directory the files that belong to the target are parsed, in the order of their names, and form a
package. The packages come out by increasing import path, each once.
-/

set_option autoImplicit false

namespace Understudy.Modules

open Files Source

/-- The module that a directory belongs to. -/
structure GoModule where
  /-- The directory of the manifest. -/
  root : DiskPath
  manifest : Manifest

namespace GoModule

/-- Finds the module of a directory by its manifest. -/
def discover (disk : Disk) (directory : DiskPath) : Except Failure GoModule := do
  let directory ← (disk.absolute directory).mapError .read
  match nearestManifest? disk directory with
  | none => throw (.manifestNotFound directory)
  | some root => return { root, manifest := ← Manifest.load disk (root.join ⟨manifestName⟩) }

/-- The import path of a directory, given relative to the module root. It is a text, so names that
are no UTF-8 are not told apart in it. -/
def importPath (m : GoModule) (relative : DiskPath) : String :=
  m.manifest.module ++ String.join (relative.components.map fun c => "/" ++ c.raw.text)

end GoModule

/-- Loads packages of a module. -/
structure Loader where
  disk : Disk
  module : GoModule
  /-- The directory that patterns are relative to, seen from the module root. -/
  cwd : DiskPath
  target : Target

namespace Loader

/-- A loader for the module of a directory. -/
def create (disk : Disk) (directory : DiskPath) (target : Target) : Except Failure Loader := do
  let module ← GoModule.discover disk directory
  let directory ← (disk.absolute directory).mapError .read
  return { disk, module, cwd := (directory.relativeTo? module.root).getD ⟨""⟩, target }

/-! ## Directories -/

/-- Whether packages below a directory of this name are passed over. -/
def isSkippedName (name : RawText) : Bool :=
  name.text == "testdata" || name.text == "vendor" || name.text.toList.head? == some '.' ||
    name.text.toList.head? == some '_'

/-- Whether a file lies at a location. -/
def isFileAt (tree : FileTree) (l : Location) : Bool :=
  match tree.get? l with
  | some (.file _) => true
  | _ => false

/-- Whether a directory on the way from `start` is passed over: it has a name of that kind, or is
the root of another module. -/
def isSkippedBelow (tree : FileTree) (start : Location) : Location → Bool
  | [] => false
  | name :: names =>
    isSkippedName name || isFileAt tree (start ++ [name, manifestName]) ||
      isSkippedBelow tree (start ++ [name]) names

/-- The directories below a directory that are not passed over, each one before those below it
and otherwise by name. -/
def walk (tree : FileTree) (start : Location) : List Location :=
  ((tree.directoriesBelow start).filter fun l => !isSkippedBelow tree start l).mergeSort
    fun a b => !b.lex a fun m n => decide (m < n)

/-- The path of a directory below another one. -/
def pathBelow (start : DiskPath) (names : Location) : DiskPath :=
  names.foldl (fun p name => p.join ⟨name⟩) start

/-- The directories that a pattern selects. -/
def directories (l : Loader) (spec : String) (pattern : Pattern) : Except Failure (List DiskPath) :=
  let start := l.module.root.join pattern.path
  if l.disk.isDirectory start then
    if pattern.isRecursive then
      match l.disk.locate start with
      | .ok location => .ok (start :: (walk l.disk.tree location).map (pathBelow start))
      | .error fault => .error (.read fault)
    else .ok [start]
  else .error (.invalidPattern (.missing spec start))

/-! ## Files -/

/-- Whether a file is a source file by its name, tests apart. -/
def isSourceName (name : String) : Bool :=
  ".go".toList.isSuffixOf name.toList && !"_test.go".toList.isSuffixOf name.toList &&
    name.toList.head? != some '.' && name.toList.head? != some '_'

/-- The names of the files in a directory that belong to the target by their name. Names that are
no UTF-8 are passed over. -/
def selectedNames (l : Loader) (entries : List (RawText × Entry)) : List String :=
  let names := entries.filterMap fun
    | (name, .file _) =>
      name.text?.filter fun name => isSourceName name && l.target.matchesFileName name
    | _ => none
  names.mergeSort fun a b => decide (a ≤ b)

/-- Whether the constraint of a source file lets it belong to the target. -/
def isSelected (l : Loader) (path : DiskPath) (text : String) : Report Bool := do
  match l.target.matchesSource text with
  | .ok true => return true
  | .ok false =>
    .note .debug ("excluding " ++ path.text ++ " by build constraints")
    return false
  | .error fault =>
    .note .warn ("skipping " ++ path.text ++ ": " ++ fault.message)
    return false

/-- Whether a file belongs to the package that the files before it form, if there are any. -/
def joins (expected : Option String) (path : DiskPath) (source : SourceFile) : Report Bool := do
  match expected with
  | none => return true
  | some name =>
    if source.package == name then return true
    .note .warn ("skipping " ++ path.text ++ ": package " ++ source.package ++
      " does not match package " ++ name)
    return false

/-- Reads the file at a path, if it belongs to the target. -/
def readSource (l : Loader) (path : DiskPath) : Report (Option SourceFile) := do
  let text ← .ofExcept ((l.disk.readText path).mapError .read)
  if ← l.isSelected path text then
    some <$> .ofExcept ((SourceFile.parse text).mapError (.parse path))
  else return none

/-- Loads the named files of a directory that form one package; `expected` is its name as soon as
a file has given it. -/
def loadFiles (l : Loader) (directory : DiskPath) (expected : Option String) :
    List String → Report (List PackageFile)
  | [] => return []
  | name :: names => do
    let path := directory.join ⟨name⟩
    match ← l.readSource path with
    | none => l.loadFiles directory expected names
    | some source =>
      if ← joins expected path source then
        .note .trace ("parsed " ++ path.text)
        return { path, source } :: (← l.loadFiles directory (some source.package) names)
      else l.loadFiles directory expected names

/-- Loads the package in a directory, if any file of it is selected. -/
def loadDirectory (l : Loader) (importPath : String) (directory : DiskPath) :
    Report (Option Package) := do
  let entries ← .ofExcept ((l.disk.readDirectory directory).mapError .read)
  match ← l.loadFiles directory none (l.selectedNames entries) with
  | [] => return none
  | first :: rest =>
    let files := first :: rest
    .note .debug ("loaded package " ++ importPath ++ " (" ++ toString files.length ++ " files)")
    return some { path := importPath, name := first.source.package, directory, files }

/-! ## Patterns -/

/-- The import path of the package in a directory. -/
def importPathOf (l : Loader) (directory : DiskPath) : String :=
  l.module.importPath ((directory.relativeTo? l.module.root).getD ⟨""⟩)

/-- Loads the packages in some directories, except for those that are loaded already. -/
def loadDirectories (l : Loader) : List Package → List DiskPath → Report (List Package)
  | packages, [] => return packages
  | packages, directory :: directories => do
    let path := l.importPathOf directory
    if packages.any (·.path == path) then l.loadDirectories packages directories
    else
      match ← l.loadDirectory path directory with
      | some package => l.loadDirectories (packages ++ [package]) directories
      | none => l.loadDirectories packages directories

/-- Loads the packages that some patterns select, except for those that are loaded already. -/
def loadPatterns (l : Loader) : List Package → List String → Report (List Package)
  | packages, [] => return packages
  | packages, spec :: specs => do
    let pattern ← .ofExcept
      ((Pattern.parse spec l.module.manifest.module l.cwd).mapError .invalidPattern)
    let directories ← .ofExcept (l.directories spec pattern)
    let packages ← l.loadDirectories packages directories
    l.loadPatterns packages specs

/-- Loads every package that some patterns select, by increasing import path. -/
def load (l : Loader) (patterns : List String) : Report (List Package) := do
  match ← l.loadPatterns [] patterns with
  | [] => .fail (.noPackages patterns)
  | packages => return packages.mergeSort fun a b => decide (a.path ≤ b.path)

end Loader

end Understudy.Modules
