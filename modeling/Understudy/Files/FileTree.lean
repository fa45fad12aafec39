import Understudy.Files.RawText

/-!
# File trees

A file tree holds what is on a disk: directories, and files with their bytes. An entry is found
by its location, the names of the directories from the root down to it. Each location has at most
one entry; the root is a directory that is always there.
-/

set_option autoImplicit false

namespace Understudy.Files

/-- Where an entry lies: the names on the way from the root. -/
abbrev Location := List RawText

/-- What lies at a location. -/
inductive Entry where
  | directory
  | file (bytes : ByteArray)
deriving BEq

/-- Directories and files by their locations. -/
structure FileTree where
  entries : List (Location × Entry)
  nodup : (entries.map Prod.fst).Nodup

namespace FileTree

/-- A tree with nothing but the root. -/
def empty : FileTree := ⟨[], by simp⟩

/-- What lies at a location. -/
def get? (t : FileTree) (l : Location) : Option Entry :=
  if l.isEmpty then some .directory else t.entries.lookup l

/-- Removes the entries whose location satisfies `p`. -/
def eraseIf (t : FileTree) (p : Location → Bool) : FileTree where
  entries := t.entries.filter fun e => !p e.1
  nodup := by
    have := (List.filter_sublist (l := t.entries) (p := fun e => !p e.1)).map Prod.fst
    exact this.nodup t.nodup

/-- Puts an entry at a location, in place of what was there. -/
def put (t : FileTree) (l : Location) (e : Entry) : FileTree where
  entries := (l, e) :: (t.eraseIf (· == l)).entries
  nodup := by
    simp only [List.map_cons, List.nodup_cons]
    refine ⟨?_, (t.eraseIf (· == l)).nodup⟩
    simp [eraseIf]

/-- Removes an entry with everything below it. -/
def remove (t : FileTree) (l : Location) : FileTree := t.eraseIf l.isPrefixOf

/-- The names in a directory, with what they name. -/
def children (t : FileTree) (l : Location) : List (RawText × Entry) :=
  t.entries.filterMap fun (m, e) =>
    match l.isPrefixOf? m with
    | some [name] => some (name, e)
    | _ => none

/-- The files below a directory, with their locations seen from it. -/
def filesBelow (t : FileTree) (l : Location) : List (Location × ByteArray) :=
  t.entries.filterMap fun (m, e) =>
    match l.isPrefixOf? m, e with
    | some (name :: names), .file bytes => some (name :: names, bytes)
    | _, _ => none

/-- The locations of the directories below a directory, seen from it. -/
def directoriesBelow (t : FileTree) (l : Location) : List Location :=
  t.entries.filterMap fun (m, e) =>
    match l.isPrefixOf? m, e with
    | some (name :: names), .directory => some (name :: names)
    | _, _ => none

end FileTree

end Understudy.Files
