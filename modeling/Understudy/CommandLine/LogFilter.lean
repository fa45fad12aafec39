import Understudy.Report

/-!
# Log filters

Which notes are shown: those up to a level, or none. Warnings and errors are shown unless the
arguments ask for more or less; a filter in the environment counts instead of the arguments.
-/

set_option autoImplicit false

namespace Understudy.CommandLine

/-- The greatest detail that is shown; without it nothing is. -/
abbrev LogFilter := Option Level

namespace LogFilter

/-- Whether a note is shown. -/
def shows (f : LogFilter) (n : Note) : Bool := f.any fun level => n.level.detail ≤ level.detail

/-- The filter that the arguments ask for. -/
def ofVerbosity (verbosity : Nat) (isQuiet : Bool) : LogFilter :=
  if isQuiet then some .error
  else
    match verbosity with
    | 0 => some .warn
    | 1 => some .info
    | 2 => some .debug
    | _ => some .trace

/-- The filter with a name, in capital or small letters, or with a number. The empty text is the
filter for errors. -/
def ofName? (name : String) : Option LogFilter :=
  match String.ofList (name.toList.map Char.toLower) with
  | "off" | "0" => some none
  | "" | "error" | "1" => some (some .error)
  | "warn" | "2" => some (some .warn)
  | "info" | "3" => some (some .info)
  | "debug" | "4" => some (some .debug)
  | "trace" | "5" => some (some .trace)
  | _ => none

end LogFilter

end Understudy.CommandLine
