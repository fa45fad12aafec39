import Understudy.Files.DiskPath
import Understudy.Files.FileTree

/-!
# Reading and writing by path

A disk is a file tree together with the directory that relative paths are seen from. Paths are
followed segment by segment: every segment, an empty one too, asks for a directory to stand in,
and a step to the parent leads to the directory above the one that was reached. A write stores
all bytes or changes no file.

A disk can have limits for the names on it. They decide which paths are refused, not where the
others lead.
-/

set_option autoImplicit false

namespace Understudy.Files

/-- Why a path could not be read or written. -/
inductive DiskFault where
  | notFound
  | alreadyExists
  | notADirectory
  | isADirectory
  /-- A name or a path is longer than any can be. -/
  | nameTooLong
  /-- A path has a zero byte, which no name has. -/
  | zeroByte
  /-- The bytes of a file are no text. -/
  | notText
  /-- The empty path has no absolute form. -/
  | emptyPath
  deriving Repr, DecidableEq

/-- The wording of a fault. -/
def DiskFault.message : DiskFault → String
  | notFound => "No such file or directory (os error 2)"
  | alreadyExists => "File exists (os error 17)"
  | notADirectory => "Not a directory (os error 20)"
  | isADirectory => "Is a directory (os error 21)"
  | nameTooLong => "File name too long (os error 36)"
  | zeroByte => "file name contained an unexpected NUL byte"
  | notText => "stream did not contain valid UTF-8"
  | emptyPath => "cannot make an empty path absolute"

/-- How long names and paths can be, in bytes. A disk with limits knows no zero byte either. -/
structure Limits where
  name : Nat
  path : Nat
  deriving Repr, DecidableEq

namespace Limits

/-- The limits of most disks. -/
def usual : Limits := { name := 255, path := 4095 }

/-- Why nothing can have a path at all. -/
def refusal? (limits : Option Limits) (p : DiskPath) : Option DiskFault :=
  limits.bind fun l =>
    if p.raw.bytes.contains 0 then some .zeroByte
    else if l.path < p.raw.bytes.length then some .nameTooLong
    else none

/-- Whether nothing can have a name. -/
def forbid (limits : Option Limits) (name : RawText) : Bool :=
  limits.any fun l => l.name < name.bytes.length

end Limits

namespace FileTree

/-- Follows segments from the entry at a location. -/
def follow (t : FileTree) (limits : Option Limits) (l : Location) :
    List RawText → Except DiskFault Location
  | [] => .ok l
  | segment :: segments =>
    match t.get? l with
    | some .directory =>
      if DiskPath.isIdleSegment segment then t.follow limits l segments
      else if segment == ".." then t.follow limits l.dropLast segments
      else
        match t.get? (l ++ [segment]) with
        | some _ => t.follow limits (l ++ [segment]) segments
        | none => .error (if Limits.forbid limits segment then .nameTooLong else .notFound)
    | _ => .error .notADirectory

/-- Follows segments from the directory at a location and makes the directories that are
missing. -/
def makeDirectories (t : FileTree) (limits : Option Limits) (l : Location) :
    List RawText → Except DiskFault (FileTree × Location)
  | [] => .ok (t, l)
  | segment :: segments =>
    if DiskPath.isIdleSegment segment then t.makeDirectories limits l segments
    else if segment == ".." then t.makeDirectories limits l.dropLast segments
    else
      let child := l ++ [segment]
      match t.get? child with
      | some .directory => t.makeDirectories limits child segments
      | some (.file _) =>
        .error (if segments.all DiskPath.isIdleSegment then .alreadyExists else .notADirectory)
      | none =>
        if Limits.forbid limits segment then .error .nameTooLong
        else (t.put child .directory).makeDirectories limits child segments

end FileTree

/-- A file tree, seen from a working directory. -/
structure Disk where
  tree : FileTree
  /-- The absolute path that relative paths are joined to. -/
  cwd : DiskPath
  /-- The limits for names, if there are any. -/
  limits : Option Limits

namespace Disk

/-- The location that a path leads to. -/
def locate (d : Disk) (p : DiskPath) : Except DiskFault Location :=
  if p.raw.isEmpty then .error .notFound
  else
    match Limits.refusal? d.limits p with
    | some fault => .error fault
    | none => d.tree.follow d.limits [] (d.cwd.join p).segments

/-- What a path leads to. -/
def entry (d : Disk) (p : DiskPath) : Except DiskFault Entry := do
  match d.tree.get? (← d.locate p) with
  | some e => return e
  | none => throw .notFound

/-- Whether a path leads to a file. -/
def isFile (d : Disk) (p : DiskPath) : Bool :=
  match d.entry p with
  | .ok (.file _) => true
  | _ => false

/-- Whether a path leads to a directory. -/
def isDirectory (d : Disk) (p : DiskPath) : Bool :=
  match d.entry p with
  | .ok .directory => true
  | _ => false

/-- The text of the file that a path leads to. -/
def readText (d : Disk) (p : DiskPath) : Except DiskFault String := do
  match ← d.entry p with
  | .directory => throw .isADirectory
  | .file bytes =>
    match String.fromUTF8? bytes with
    | some text => return text
    | none => throw .notText

/-- The names in the directory that a path leads to, with what they name. -/
def readDirectory (d : Disk) (p : DiskPath) : Except DiskFault (List (RawText × Entry)) := do
  match ← d.entry p with
  | .directory => return d.tree.children (← d.locate p)
  | .file _ => throw .notADirectory

/-- The absolute form of a path. -/
def absolute (d : Disk) (p : DiskPath) : Except DiskFault DiskPath :=
  if p.raw.isEmpty then .error .emptyPath else .ok (p.absolute d.cwd)

/-- Makes the directory that a path leads to, and those above it. -/
def makeDirectory (d : Disk) (p : DiskPath) : Except DiskFault Disk :=
  if p.raw.isEmpty then .ok d
  else
    match Limits.refusal? d.limits p with
    | some fault => .error fault
    | none =>
      (d.tree.makeDirectories d.limits [] (d.cwd.join p).segments).map fun r =>
        { d with tree := r.1 }

/-- Stores bytes in the file that a path leads to. The directory has to be there. -/
def storeBytes (d : Disk) (p : DiskPath) (bytes : ByteArray) : Except DiskFault Disk := do
  if let some fault := Limits.refusal? d.limits p then throw fault
  match (d.cwd.join p).segments.reverse with
  | [] => throw .notFound
  | name :: above =>
    let l ← d.tree.follow d.limits [] above.reverse
    match d.tree.get? l with
    | some .directory =>
      if DiskPath.isIdleSegment name || name == ".." then throw .isADirectory
      if Limits.forbid d.limits name then throw .nameTooLong
      match d.tree.get? (l ++ [name]) with
      | some .directory => throw .isADirectory
      | _ => return { d with tree := d.tree.put (l ++ [name]) (.file bytes) }
    | _ => throw .notADirectory

/-- Stores a text in the file that a path leads to, and makes the directories above it. -/
def writeText (d : Disk) (p : DiskPath) (text : String) : Except DiskFault Disk := do
  let d ← match p.parent? with
    | some parent => d.makeDirectory parent
    | none => pure d
  d.storeBytes p text.toUTF8

end Disk

end Understudy.Files
