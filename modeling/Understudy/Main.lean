import Understudy.CommandLine.Program

/-!
# The executable

Reads the files that a run can need into memory, runs the program on them, writes back the files
that it changed, and prints its reply. All decisions are made by `CommandLine.run`. Here files
are read and written by paths that are texts.
-/

set_option autoImplicit false

namespace Understudy.Main

open Files Modules CommandLine

/-- What is printed when the use of the program is to be explained. -/
def usage : String :=
  "Create stub packages from Go packages: exported API kept, bodies replaced with panics.\n\n" ++
  "Usage: gostubpkg [OPTIONS] <PATTERNS>...\n\n" ++
  "Options:\n" ++
  "  -c, --config <CONFIG>             Config file [default: ./gostubpkg.yaml]\n" ++
  "  -i, --input-dir <INPUT_DIR>       Directory of the Go module to read [default: .]\n" ++
  "  -o, --output-dir <OUTPUT_DIR>     Output directory for the stubs [default: .]\n" ++
  "  -m, --generate-go-mod             Generate a go.mod at the root of the stub module\n" ++
  "  -a, --allow-imports <IMPORTS>     External import paths kept in the stubs\n" ++
  "  -f, --function-bodies <KEY=BODY>  Body for a stubbed function\n" ++
  "      --goos <GOOS>                 Target operating system [default: linux]\n" ++
  "      --goarch <GOARCH>             Target architecture [default: amd64]\n" ++
  "      --tags <TAGS>                 Extra build tags, comma-delimited\n" ++
  "      --formatter <FORMATTER>       Import formatter: native or goimports\n" ++
  "  -v, --verbose...                  Increase log verbosity (-v, -vv, -vvv)\n" ++
  "  -q, --quiet                       Only log errors\n" ++
  "  -h, --help                        Print help\n" ++
  "  -V, --version                     Print version\n"

/-- The location of an absolute path. -/
def locationOf (path : DiskPath) : Location :=
  path.segments.filter fun segment => !segment.isEmpty

/-- The path of a location. -/
def pathOf (l : Location) : String := "/" ++ String.intercalate "/" (l.map RawText.text)

/-- Puts a directory into a tree, with the directories above it. -/
def putDirectory (t : FileTree) (l : Location) : FileTree :=
  (List.range l.length).foldl (fun t n =>
    match t.get? (l.take (n + 1)) with
    | some _ => t
    | none => t.put (l.take (n + 1)) .directory) t

/-- Whether the program can ask for the contents of a file with a name. Other files are only known
to be there. -/
def isReadable (name : String) : Bool :=
  name == manifestName.text || name == Config.defaultPath.text || name.endsWith ".go"

/-- Reads a directory and everything below it, at most `depth` levels. Links to directories are
not followed. -/
def readTree : Nat → FileTree → Location → IO FileTree
  | 0, t, _ => return t
  | depth + 1, t, l => do
    let mut t := putDirectory t l
    for entry in ← (IO.FS.realPath (pathOf l) >>= fun p => p.readDir) do
      let child := l ++ [.ofText entry.fileName]
      if (← entry.path.symlinkMetadata).type matches .dir then
        t ← readTree depth t child
      else if !(← entry.path.isDir) then
        let bytes ← if isReadable entry.fileName then IO.FS.readBinFile entry.path else pure .empty
        t := t.put child (.file bytes)
    return t

/-- The directory to read for a path: the module around it, or the directory itself. -/
def directoryOf? (path : DiskPath) : IO (Option Location) := do
  match ← (IO.FS.realPath path.text).toBaseIO with
  | .error _ => return none
  | .ok real =>
    let entry : DiskPath := ⟨real.toString⟩
    let here := if ← real.isDir then entry else entry.parent?.getD entry
    let above ← here.ancestors.filterM fun p => do
      return (← (IO.FS.readBinFile (p.join ⟨manifestName⟩).text).toBaseIO).toOption.isSome
    return some (locationOf (above.head?.getD here))

/-- Reads what stands at some paths, and around them. -/
def readPaths (disk : Disk) (paths : List DiskPath) : IO Disk := do
  let mut tree := disk.tree
  for path in paths do
    if let some l ← directoryOf? (disk.cwd.join path) then
      if (tree.get? l).isNone then tree ← readTree 256 tree l
  return { disk with tree }

/-- Reads a configuration file that is named. -/
def readConfig (disk : Disk) (path : DiskPath) : IO Disk := do
  match ← (IO.FS.readBinFile (disk.cwd.join path).text).toBaseIO with
  | .error _ => return disk
  | .ok bytes => return (disk.storeBytes path bytes).toOption.getD disk

/-- Reads what a run can need. -/
def readDisk (args : List String) : IO Disk := do
  let cwd : DiskPath := ⟨(← IO.currentDir).toString⟩
  let bare : Disk := { tree := .empty, cwd, limits := some .usual }
  match Options.parse args with
  | .error _ => return bare
  | .ok o =>
    let paths := ⟨"."⟩ :: o.input.toList ++ o.output.toList ++ o.config.toList
    let disk ← readPaths bare paths
    let disk ← match o.config with
      | some path => readConfig disk path
      | none => pure disk
    match (o.loadConfig disk).result with
    | .ok c => readPaths disk (c.input.toList ++ c.output.toList)
    | .error _ => return disk

/-- Writes the files that differ between two trees. -/
def writeChanges (old new : FileTree) : IO Unit := do
  for (l, entry) in new.entries.reverse do
    if old.get? l != some entry then
      match entry with
      | .directory => IO.FS.createDirAll (pathOf l)
      | .file bytes => IO.FS.writeBinFile (pathOf l) bytes

/-- Prints a reply. -/
def printReply (reply : Reply) : IO Unit := do
  for note in reply.log do
    IO.eprintln note.line
  if let some failure := reply.failure then IO.eprintln failure
  IO.print reply.output
  if reply.explains then
    if reply.exitCode == 0 then IO.print usage else IO.eprint usage

end Understudy.Main

open Understudy in
/-- The entry point of the executable. -/
def main (args : List String) : IO UInt32 := do
  let env : CommandLine.Environment := {
    os := ← IO.getEnv "GOOS"
    arch := ← IO.getEnv "GOARCH"
    log := ← IO.getEnv "RUST_LOG" }
  let disk ← Main.readDisk args
  let (after, reply) := CommandLine.run disk env none args
  Main.writeChanges disk.tree after.tree
  Main.printReply reply
  return reply.exitCode.toUInt32
