import Understudy.Modules.Loader
import Understudy.Stub.Formatter
import Understudy.Stub.Notes

/-!
# Generating stubs

Generation loads the packages that some patterns select, makes the stub of each and writes it
below the output directory, at the import path of the package. The stubs are written one by one
in the order of the import paths; a failure ends the generation and leaves what was written.

`render` makes the same stubs without writing them.
-/

set_option autoImplicit false

namespace Understudy

open Files Modules Stub

/-- What is to be generated, and how. -/
structure Job where
  /-- The directory whose module is read and that patterns are relative to. -/
  input : DiskPath
  /-- The directory that stubs are written below. -/
  output : DiskPath
  /-- Whether the stubs get a manifest. -/
  writesManifest : Bool
  /-- The import paths of other modules that stubs may keep. -/
  allowed : List String
  overrides : OverrideTable
  target : Target
  formatter : FormatterKind

/-- A file that is to be written. -/
structure OutputFile where
  path : DiskPath
  text : String
  deriving Repr, DecidableEq

/-- A run that changes a disk. What was written before a failure stays. -/
structure Outcome (α : Type) where
  disk : Disk
  report : Report α

namespace Job

/-- Where the stub of a package is written. -/
def outputPath (job : Job) (package : Package) : DiskPath :=
  (job.output.join ⟨package.path⟩).join ⟨.ofText (package.name ++ ".go")⟩

/-- The manifest that is written for the stubs of a module. -/
def manifestFile (job : Job) (manifest : Manifest) : OutputFile where
  path := (job.output.join ⟨manifest.module⟩).join ⟨manifestName⟩
  text := manifest.render

/-- The stub of a package, formatted. -/
def stubFile (job : Job) (formatter : Formatter) (policy : ImportPolicy) (package : Package) :
    Report OutputFile := do
  let path := job.outputPath package
  .noteAll (packageNotes policy job.overrides package)
  let stub ← .ofExcept (PackageStub.ofPackage policy job.overrides package)
  let raw := stub.render
  .note .debug
    ("formatting " ++ path.text ++ " with the " ++ job.formatter.name ++ " formatter")
  .noteAll (formatter.notes path raw)
  let text ← .ofExcept (formatter.apply path raw)
  return { path, text }

/-- The loader of a job. -/
def loader (job : Job) (disk : Disk) : Except Failure Loader :=
  Loader.create disk job.input job.target

/-- The packages of a job, and what their stubs need. -/
def prepare (job : Job) (loader : Loader) (installed : Option Tool) (patterns : List String) :
    Report (List Package × Formatter × ImportPolicy) := do
  let packages ← loader.load patterns
  let formatter ← .ofExcept (Formatter.ofKind job.formatter installed)
  return (packages, formatter, .ofPackages job.allowed packages)

/-- The stubs of some packages. -/
def stubFiles (job : Job) (formatter : Formatter) (policy : ImportPolicy) :
    List Package → Report (List (String × OutputFile))
  | [] => return []
  | package :: packages => do
    let file ← job.stubFile formatter policy package
    return (package.path, file) :: (← job.stubFiles formatter policy packages)

/-- The stubs that some patterns select, with the import paths of their packages. -/
def render (job : Job) (disk : Disk) (installed : Option Tool) (patterns : List String) :
    Report (List (String × OutputFile)) := do
  let loader ← .ofExcept (job.loader disk)
  let (packages, formatter, policy) ← job.prepare loader installed patterns
  job.stubFiles formatter policy packages

end Job

namespace Outcome

variable {α β : Type}

/-- A run that leaves the disk as it is. -/
def keep (disk : Disk) (report : Report α) : Outcome α := { disk, report }

/-- Goes on with the result of a run. -/
def andThen (o : Outcome α) (next : Disk → α → Outcome β) : Outcome β :=
  match o.report.result with
  | .error failure => { disk := o.disk, report := ⟨o.report.notes, .error failure⟩ }
  | .ok a =>
    let rest := next o.disk a
    { disk := rest.disk, report := ⟨o.report.notes ++ rest.report.notes, rest.report.result⟩ }

/-- Changes the result of a run. -/
def map (o : Outcome α) (f : α → β) : Outcome β :=
  { disk := o.disk, report := ⟨o.report.notes, o.report.result.map f⟩ }

end Outcome

/-- Writes a file and gives back its path. -/
def OutputFile.write (file : OutputFile) (disk : Disk) : Outcome DiskPath :=
  match disk.writeText file.path file.text with
  | .ok disk => .keep disk do
      .note .info ("wrote " ++ file.path.text)
      return file.path
  | .error fault => .keep disk (.fail (.write file.path fault))

namespace Job

/-- Writes the manifest, if one is wanted. -/
def writeManifest (job : Job) (disk : Disk) (manifest : Manifest) : Outcome (List DiskPath) :=
  if job.writesManifest then ((job.manifestFile manifest).write disk).map ([·])
  else .keep disk (pure [])

/-- Makes and writes the stubs of some packages, one after the other. -/
def writeStubs (job : Job) (formatter : Formatter) (policy : ImportPolicy) :
    List Package → Disk → Outcome (List DiskPath)
  | [], disk => .keep disk (pure [])
  | package :: packages, disk =>
    (Outcome.keep disk (job.stubFile formatter policy package)).andThen fun disk file =>
      (file.write disk).andThen fun disk path =>
        (job.writeStubs formatter policy packages disk).map (path :: ·)

/-- Generates the stubs that some patterns select and gives back the paths of the written files.
The packages are read before any stub is written. -/
def generate (job : Job) (disk : Disk) (installed : Option Tool) (patterns : List String) :
    Outcome (List DiskPath) :=
  (Outcome.keep disk (.ofExcept (job.loader disk))).andThen fun disk loader =>
    (job.writeManifest disk loader.module.manifest).andThen fun disk manifests =>
      -- The manifest of the stubs can lie where packages are read from.
      (Outcome.keep disk (job.prepare { loader with disk } installed patterns)).andThen
        fun disk (packages, formatter, policy) =>
          (job.writeStubs formatter policy packages disk).map (manifests ++ ·)

end Job

end Understudy
