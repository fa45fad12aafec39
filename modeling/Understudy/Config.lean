import Understudy.Report
import Understudy.Stub.Formatter
import Understudy.Stub.Override
import Understudy.Yaml.Value

/-!
# Configuration files

A configuration file is a YAML mapping with a fixed set of keys, all of which may be left out. A
key that is not known or occurs twice makes the file invalid, and so does a value of the wrong
kind: nothing is guessed. Within the bodies of functions alone a key may occur twice, and then
the last value counts.
-/

set_option autoImplicit false

namespace Understudy

open Files Stub Yaml

/-- What a configuration file says. -/
structure Config where
  input : Option DiskPath
  output : Option DiskPath
  writesManifest : Option Bool
  /-- Import paths of other modules that stubs may keep. -/
  allowed : List String
  /-- Bodies of functions by the spelling of their keys, in the order of the spellings. -/
  bodies : List (String × String)
  os : Option String
  arch : Option String
  tags : List String
  formatter : Option FormatterKind
  deriving Repr, DecidableEq

namespace Config

/-- What a file says that sets nothing. -/
def default : Config where
  input := none
  output := none
  writesManifest := none
  allowed := []
  bodies := []
  os := none
  arch := none
  tags := []
  formatter := none

/-- Where the configuration is looked for if no file is named. -/
def defaultPath : DiskPath := ⟨"gostubpkg.yaml"⟩

/-- Sorts pairs by their first parts; of two pairs with the same one the later one stays. -/
def sortedPairs (pairs : List (String × String)) : List (String × String) :=
  let distinct := pairs.foldl (fun kept p => p :: kept.filter (·.1 != p.1)) []
  distinct.mergeSort fun a b => decide (a.1 ≤ b.1)

/-- Takes over the value of a key. -/
def set (c : Config) (d : Document) (key : String) (value : Node) : Option Config :=
  match key with
  | "input-dir" => do
    return { c with input := (← d.optionalAt? Node.text? value).map DiskPath.mk }
  | "output-dir" => do
    return { c with output := (← d.optionalAt? Node.text? value).map DiskPath.mk }
  | "generate-go-mod" => do
    return { c with writesManifest := ← d.optionalAt? Node.bool? value }
  | "allow-imports" => do
    return { c with allowed := ← d.textsAt? value }
  | "function-bodies" => do
    return { c with bodies := sortedPairs (← d.textEntriesAt? value) }
  | "goos" => do
    return { c with os := ← d.optionalAt? Node.text? value }
  | "goarch" => do
    return { c with arch := ← d.optionalAt? Node.text? value }
  | "tags" => do
    return { c with tags := ← d.textsAt? value }
  | "formatter" => do
    let kind? (n : Node) : Option FormatterKind := n.name?.bind FormatterKind.ofName?
    return { c with formatter := ← d.optionalAt? kind? value }
  | _ => none

/-- Takes over entries whose keys are not among `seen` and occur once. -/
def setAll (c : Config) (d : Document) (seen : List String) : List (Node × Node) → Option Config
  | [] => some c
  | (key, value) :: rest => do
    let key ← d.textAt? key
    guard (!seen.contains key)
    (← c.set d key value).setAll d (key :: seen) rest

/-- What the text of a file says. -/
def parse? (text : String) : Option Config :=
  if (Text.trim text.toList).isEmpty then some default
  else do
    match ← Document.parse? text with
    | none => return default
    | some d => default.setAll d [] (← d.root.entries?)

/-- What the text of a file says, or a failure that names the file. -/
def parse (path : DiskPath) (text : String) : Except Failure Config :=
  match parse? text with
  | some c => .ok c
  | none => .error (.config path)

/-- Reads the text of a configuration file. -/
def readText (path : DiskPath) (text : String) : Report Config := do
  .note .info ("using config file: " ++ path.text)
  .ofExcept (parse path text)

/-- Reads a configuration file, which has to be there. -/
def load (disk : Disk) (path : DiskPath) : Report Config :=
  match disk.readText path with
  | .ok text => readText path text
  | .error _ => .fail (.config path)

/-- Reads a configuration file if it is there. -/
def loadIfPresent (disk : Disk) (path : DiskPath) : Report Config :=
  match disk.readText path with
  | .ok text => readText path text
  | .error .notFound => return default
  | .error _ => .fail (.config path)

/-- The bodies of functions, or the first key that is malformed. -/
def overrides (c : Config) : Except String OverrideTable :=
  OverrideTable.ofPairs c.bodies

end Config

end Understudy
