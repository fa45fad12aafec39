import Understudy.Failure

/-!
# Package patterns

A pattern names a directory of the module, or with `/...` at the end a directory and all below
it. The directory is given by its import path, or relative to a directory of the module. It is
resolved to plain names below the module root, and a pattern that leads out of the module is
refused.
-/

set_option autoImplicit false

namespace Understudy.Modules

open Files Text

/-- A directory of a module, or a directory with all below it. -/
structure Pattern where
  /-- The names on the way from the module root. -/
  directory : List RawText
  isRecursive : Bool
  deriving Repr, DecidableEq

namespace Pattern

/-- The wildcard at the end of a recursive pattern. -/
def wildcard : List Char := ['.', '.', '.']

/-- Splits off the wildcard with the slash before it. -/
def splitWildcard (spec : List Char) : List Char × Bool :=
  match wildcard.isSuffixOf? spec with
  | some base => ((['/'].isSuffixOf? base).getD base, true)
  | none => (spec, false)

/-- Whether a wildcard stands where it must not: at the end of a name, or in the middle. -/
def hasMisplacedWildcard (spec base : List Char) (isRecursive : Bool) : Bool :=
  (isRecursive && !(base.isEmpty || base == ['.'] || ['/', '.', '.', '.'].isSuffixOf spec)) ||
    (cut? wildcard base).isSome

/-- Whether a path begins like an import path of another module: its first element has a dot. -/
def looksForeign (base : List Char) : Bool :=
  let first := base.takeWhile (· != '/')
  first.contains '.' && first != ['.'] && first != ['.', '.']

/-- The directory that a pattern without its wildcard means, seen from the module root. -/
def directoryOf? (base : List Char) (module : String) (cwd : DiskPath) : Option DiskPath :=
  if base == module.toList then some ⟨""⟩
  else
    match (module.toList.isPrefixOf? base).bind (['/'].isPrefixOf? ·) with
    | some rest => some ⟨String.ofList rest⟩
    | none =>
      if base == ['.'] then some cwd
      else
        match ['.', '/'].isPrefixOf? base with
        | some rest => some (cwd.join ⟨String.ofList rest⟩)
        | none => if looksForeign base then none else some (cwd.join ⟨String.ofList base⟩)

/-- Resolves components to plain names; `above` are the names so far, in reverse order. -/
def resolve? (above : List RawText) : List Component → Option (List RawText)
  | [] => some above.reverse
  | .name name :: rest => resolve? (name :: above) rest
  | .here :: rest => resolve? above rest
  | .up :: rest =>
    match above with
    | [] => none
    | _ :: above => resolve? above rest
  | .root :: _ => none

/-- Resolves a pattern for a module, where relative patterns are seen from `cwd`. -/
def parse (spec module : String) (cwd : DiskPath) : Except PatternFault Pattern :=
  if spec.isEmpty then .error .empty
  else
    let (base, isRecursive) := splitWildcard spec.toList
    if hasMisplacedWildcard spec.toList base isRecursive then .error (.misplacedWildcard spec)
    else
      match directoryOf? base module cwd with
      | none => .error (.foreign spec module)
      | some path =>
        match resolve? [] path.components with
        | none => .error (.outside spec)
        | some directory => .ok { directory, isRecursive }

/-- The directory of a pattern as a path. -/
def path (p : Pattern) : DiskPath := .ofComponents (p.directory.map .name)

end Pattern

end Understudy.Modules
