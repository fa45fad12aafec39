import Understudy.Modules.Constraint
import Understudy.Text.Lines
import Understudy.Text.Pieces

/-!
# Build targets

Which files belong to a build: those whose name does not ask for another operating system or
architecture, and whose constraint, if there is one before the package clause, holds.
-/

set_option autoImplicit false

namespace Understudy.Modules

open Text

/-- What packages are built for. -/
structure Target where
  os : String
  arch : String
  /-- Further tags that hold. -/
  tags : List String
  deriving Repr, DecidableEq

namespace Target

/-- The target when none is asked for. -/
def default : Target := { os := "linux", arch := "amd64", tags := [] }

/-- The operating systems that a file name can ask for. -/
def knownOs : List String := [
  "aix", "android", "darwin", "dragonfly", "freebsd", "hurd", "illumos", "ios", "js", "linux",
  "nacl", "netbsd", "openbsd", "plan9", "solaris", "wasip1", "windows", "zos"]

/-- The architectures that a file name can ask for. -/
def knownArch : List String := [
  "386", "amd64", "amd64p32", "arm", "armbe", "arm64", "arm64be", "loong64", "mips", "mipsle",
  "mips64", "mips64le", "mips64p32", "mips64p32le", "ppc", "ppc64", "ppc64le", "riscv",
  "riscv64", "s390", "s390x", "sparc", "sparc64", "wasm"]

/-- The operating systems for which the tag `unix` holds. -/
def unixOs : List String := [
  "aix", "android", "darwin", "dragonfly", "freebsd", "hurd", "illumos", "ios", "linux",
  "netbsd", "openbsd", "solaris"]

/-- Whether a tag names a release of the language; all releases are taken to be there. -/
def isReleaseTag (tag : String) : Bool :=
  match "go1.".toList.isPrefixOf? tag.toList with
  | some minor => !minor.isEmpty && minor.all Char.isDigit
  | none => false

/-- Whether a tag holds. -/
def matchesTag (t : Target) (tag : String) : Bool :=
  tag == t.os || tag == t.arch || t.tags.contains tag ||
    match tag with
    | "gc" => true
    | "unix" => unixOs.contains t.os
    | "linux" => t.os == "android"
    | "solaris" => t.os == "illumos"
    | "darwin" => t.os == "ios"
    | tag => isReleaseTag tag

/-- The parts of a file name behind its first underscore, last one first, up to the first dot. A
final `test` is left out. -/
def nameSuffixes (fileName : String) : List String :=
  let stem := fileName.toList.takeWhile (· != '.')
  let parts := ((pieces (· == '_') stem).drop 1).map String.ofList
  match parts.reverse with
  | "test" :: rest => rest
  | rest => rest

/-- Whether a file name asks for no other target: it can end in an operating system, an
architecture, or both in this order. -/
def matchesFileName (t : Target) (fileName : String) : Bool :=
  match nameSuffixes fileName with
  | [] => true
  | last :: rest =>
    match rest with
    | os :: _ =>
      if knownOs.contains os && knownArch.contains last then t.matchesTag os && t.matchesTag last
      else if knownOs.contains last || knownArch.contains last then t.matchesTag last
      else true
    | [] => if knownOs.contains last || knownArch.contains last then t.matchesTag last else true

/-- Whether a trimmed line begins the package clause. -/
def isPackageClause (line : List Char) : Bool :=
  "package ".toList.isPrefixOf line || line == "package".toList

/-- The text of the constraint in a trimmed line. -/
def constraintIn? (line : List Char) : Option (List Char) :=
  match "//go:build".toList.isPrefixOf? line with
  | some [] => some []
  | some (c :: cs) => if c == ' ' || c == '\t' then some (c :: cs) else none
  | none => none

/-- The constraint of a source file: the first one before the package clause. -/
def constraintOf? (ls : List (List Char)) : Option (List Char) :=
  ((ls.map trim).takeWhile fun line => !isPackageClause line).findSome? constraintIn?

/-- Whether a constraint holds. -/
def eval (t : Target) (constraint : String) : Except Constraint.Fault Bool :=
  (Constraint.parse constraint).map (Constraint.eval t.matchesTag)

/-- Whether the constraint of a source file holds. -/
def matchesSource (t : Target) (source : String) : Except Constraint.Fault Bool :=
  match constraintOf? (lines source.toList) with
  | some constraint => t.eval (String.ofList constraint)
  | none => .ok true

end Target

end Understudy.Modules
