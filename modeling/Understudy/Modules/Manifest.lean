import Understudy.Failure
import Understudy.Text.Lines
import Understudy.Text.Pieces

/-!
# Manifests

A manifest names a module and, optionally, the language version it is written for. Of each
directive the last one counts; what follows `//` on a line is a comment. The manifest of the
stubs is written with these two directives only.
-/

set_option autoImplicit false

namespace Understudy.Modules

open Text Files

/-- The name of every manifest file. -/
def manifestName : RawText := "go.mod"

/-- The directives of a manifest that stubs need. -/
structure Manifest where
  /-- The module path. -/
  module : String
  /-- The language version. -/
  version : Option String
  deriving Repr, DecidableEq

namespace Manifest

/-- The text between two marks at the ends of a text. -/
def between? (mark : Char) : List Char → Option (List Char)
  | [] => none
  | c :: cs => if c == mark && cs.getLast? == some mark then some cs.dropLast else none

/-- A value without the quotes around it. -/
def unquote (value : List Char) : List Char :=
  ((between? '"' value).orElse fun _ => between? '\x60' value).getD value

/-- The first two words of a line before a comment. -/
def directive (line : List Char) : Option (String × List Char) :=
  let line := match cut? ['/', '/'] line with
    | some (before, _) => before
    | none => line
  match words line with
  | key :: value :: _ => some (String.ofList key, value)
  | _ => none

/-- The value of the last directive with a key. -/
def lastValue? (key : String) (directives : List (String × List Char)) : Option (List Char) :=
  (directives.filter (·.1 == key)).getLast?.map Prod.snd

/-- Reads a manifest. -/
def parse (text : String) : Except ManifestFault Manifest :=
  let directives := (lines text.toList).filterMap directive
  match lastValue? "module" directives with
  | none => .error .noModule
  | some value => .ok {
      module := String.ofList (unquote value)
      version := (lastValue? "go" directives).map String.ofList }

/-- The text of a manifest. -/
def render (m : Manifest) : String :=
  match m.version with
  | some version => "module " ++ m.module ++ "\n\ngo " ++ version ++ "\n"
  | none => "module " ++ m.module ++ "\n"

/-- Reads the manifest at a path. -/
def load (disk : Disk) (path : DiskPath) : Except Failure Manifest :=
  match disk.readText path with
  | .error fault => .error (.manifestParse path (.unreadable fault))
  | .ok text => (parse text).mapError (.manifestParse path)

end Manifest

/-- The nearest directory with a manifest: a directory itself or one above it. -/
def nearestManifest? (disk : Disk) (directory : DiskPath) : Option DiskPath :=
  directory.ancestors.find? fun d => disk.isFile (d.join ⟨manifestName⟩)

end Understudy.Modules
