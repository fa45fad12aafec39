import Understudy.Files.RawText
import Understudy.Text.Pieces

/-!
# Paths

A path is a raw text with slashes between its segments. Messages show paths as they were put
together, so the bytes are kept and not normalised. What a path means for the program is its list
of components: empty segments have none, and neither has a dot, except at the very beginning of
a relative path.
-/

set_option autoImplicit false

namespace Understudy.Files

open Text

/-- A path as it is written. -/
structure DiskPath where
  raw : RawText
  deriving Repr, DecidableEq

/-- A step that a path takes. -/
inductive Component where
  /-- To the root, at the beginning of an absolute path. -/
  | root
  /-- To where it stands, at the beginning of a relative path. -/
  | here
  /-- To the parent directory. -/
  | up
  | name (name : RawText)
  deriving Repr, DecidableEq

namespace Component

/-- How a component is written. -/
def raw : Component → RawText
  | root => "/"
  | here => "."
  | up => ".."
  | .name s => s

/-- Whether a component is a plain name. -/
def isName : Component → Bool
  | name _ => true
  | _ => false

end Component

namespace DiskPath

/-- A path as messages show it. -/
def text (p : DiskPath) : String := p.raw.text

/-- Whether a path begins at the root. -/
def isAbsolute (p : DiskPath) : Bool := p.raw.bytes.head? == some RawText.slash

/-- What stands between the slashes of a path. -/
def segments (p : DiskPath) : List RawText :=
  (pieces (· == RawText.slash) p.raw.bytes).map RawText.mk

/-- Whether a segment that is not at the beginning of a path adds nothing to it. -/
def isIdleSegment (segment : RawText) : Bool := segment == "" || segment == "."

/-- The component of a segment that is not at the beginning of a relative path. -/
def innerComponent? (segment : RawText) : Option Component :=
  if isIdleSegment segment then none
  else if segment == ".." then some .up
  else some (.name segment)

/-- The components of a path. -/
def components (p : DiskPath) : List Component :=
  let inner := p.segments.filterMap innerComponent?
  if p.isAbsolute then .root :: inner
  else if p.segments.head? == some (.ofText ".") then .here :: inner
  else inner

/-- `q` seen from `p`. An absolute path is the same from everywhere, and the empty path leaves a
slash behind. -/
def join (p q : DiskPath) : DiskPath :=
  if q.isAbsolute then q
  else
    let between : RawText :=
      if p.raw.isEmpty || p.raw.bytes.getLast? == some RawText.slash then "" else "/"
    ⟨p.raw ++ between ++ q.raw⟩

/-- The path with some components. -/
def ofComponents (cs : List Component) : DiskPath :=
  cs.foldl (fun p c => p.join ⟨c.raw⟩) ⟨""⟩

/-- Removes the idle segments at the end, where the segments are in reverse order. The first
segment of a path stays: it is empty for an absolute path, and a dot there is a component. -/
def dropIdle : List RawText → List RawText
  | s :: t :: rest => if isIdleSegment s then dropIdle (t :: rest) else s :: t :: rest
  | rest => rest

/-- The path with the given segments, in reverse order. -/
def ofReversedSegments (segments : List RawText) : DiskPath :=
  if segments == [.ofText ""] then ⟨"/"⟩ else ⟨.joined segments.reverse⟩

/-- The path without its last component. The root and the empty path have no parent. -/
def parent? (p : DiskPath) : Option DiskPath :=
  match dropIdle p.segments.reverse with
  | [] => none
  | [only] => if only == "" then none else some ⟨""⟩
  | _ :: rest => some (ofReversedSegments (dropIdle rest))

/-- The paths above a path, nearest first, and the path itself in front of them. -/
def ancestors (p : DiskPath) : List DiskPath :=
  go p.segments.length p
where
  /-- At most `n` steps up. -/
  go : Nat → DiskPath → List DiskPath
    | 0, p => [p]
    | n + 1, p =>
      match p.parent? with
      | some q => p :: go n q
      | none => [p]

/-- The name at the end of a path, as messages show it. -/
def fileName? (p : DiskPath) : Option String :=
  match p.components.getLast? with
  | some (.name name) => some name.text
  | _ => none

/-- What is left of a path below another one. -/
def relativeTo? (p base : DiskPath) : Option DiskPath :=
  (base.components.isPrefixOf? p.components).map ofComponents

/-- The root that an absolute path begins at. Exactly two slashes are a root of their own. -/
def rootOf (p : DiskPath) : DiskPath :=
  match p.raw.bytes.takeWhile (· == RawText.slash) with
  | [_, _] => ⟨"//"⟩
  | _ => ⟨"/"⟩

/-- The absolute form of a path that is not empty: dots and repeated slashes are removed, steps
to a parent are kept, and so is a slash at the end. -/
def absolute (p cwd : DiskPath) : DiskPath :=
  let base := if p.isAbsolute then p.rootOf else cwd
  let steps := p.components.filter fun c => c != .root && c != .here
  let result := steps.foldl (fun q c => q.join ⟨c.raw⟩) base
  if p.raw.bytes.getLast? == some RawText.slash then result.join ⟨""⟩ else result

end DiskPath

end Understudy.Files
