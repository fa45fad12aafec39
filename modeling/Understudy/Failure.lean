import Understudy.Files.Disk
import Understudy.Source.Position

/-!
# Failures

Everything that can stop the generation of stubs, by cause. The wording is in one place,
`Failure.message`; a failure that comes from another one also names that one (`Failure.cause?`).
-/

set_option autoImplicit false

namespace Understudy

open Files Source

/-- What is wrong with a manifest. -/
inductive ManifestFault where
  /-- It names no module. -/
  | noModule
  /-- It cannot be read. -/
  | unreadable (fault : DiskFault)
  deriving Repr, DecidableEq

/-- The wording of a manifest fault. -/
def ManifestFault.message : ManifestFault → String
  | noModule => "missing module directive"
  | unreadable fault => fault.message

/-- Why a package pattern cannot be resolved. -/
inductive PatternFault where
  /-- The empty pattern. -/
  | empty
  /-- A wildcard that is not the last element. -/
  | misplacedWildcard (spec : String)
  /-- An import path of another module. -/
  | foreign (spec module : String)
  /-- A path that leads out of the module. -/
  | outside (spec : String)
  /-- A directory that is not there. -/
  | missing (spec : String) (directory : DiskPath)
  deriving Repr, DecidableEq

/-- The wording of a pattern fault. -/
def PatternFault.message : PatternFault → String
  | empty => "Invalid package pattern: empty string"
  | misplacedWildcard spec => "Wildcards are only supported as a final '/...': " ++ spec
  | foreign spec module => spec ++ " is not part of module " ++ module
  | outside spec => spec ++ " must stay inside the module"
  | missing spec directory => spec ++ ": directory " ++ directory.text ++ " does not exist"

/-- What is wrong with the receiver of a method. -/
inductive ReceiverFault where
  /-- The receiver list does not have exactly one entry. -/
  | entries (count : Nat)
  /-- The entry has more than one name. -/
  | names (count : Nat)
  deriving Repr, DecidableEq

/-- The wording of a receiver fault. -/
def ReceiverFault.message : ReceiverFault → String
  | entries count => toString count ++ " receiver parameters"
  | names count => toString count ++ " receiver names"

/-- What stopped the generation of stubs. -/
inductive Failure where
  /-- No manifest in a directory or above it. -/
  | manifestNotFound (directory : DiskPath)
  | manifestParse (path : DiskPath) (fault : ManifestFault)
  /-- The patterns match no package. -/
  | noPackages (patterns : List String)
  | invalidPattern (fault : PatternFault)
  | invalidOverrideKey (key : String)
  /-- A configuration file that cannot be read or understood. -/
  | config (path : DiskPath)
  | malformedReceiver (package function : String) (fault : ReceiverFault)
  | parse (path : DiskPath) (error : SyntaxError)
  | read (fault : DiskFault)
  | write (path : DiskPath) (fault : DiskFault)
  /-- A formatter did not accept a stub. -/
  | format (path : DiskPath) (message : String)
  | formatterNotFound (name : String)
  deriving Repr, DecidableEq

namespace Failure

/-- The wording of a failure. -/
def message : Failure → String
  | manifestNotFound directory =>
    "Failed to find go.mod in " ++ directory.text ++ " or any parent directories"
  | manifestParse path fault => "Failed to parse " ++ path.text ++ ": " ++ fault.message
  | noPackages patterns => "No packages found in " ++ String.intercalate " " patterns
  | invalidPattern fault => "Invalid package pattern: " ++ fault.message
  | invalidOverrideKey key => "Invalid function body key: " ++ key
  | config path => "Invalid config file " ++ path.text
  | malformedReceiver package function fault =>
    "Malformed receiver for " ++ package ++ "." ++ function ++ ": " ++ fault.message
  | parse path error => "Failed to parse " ++ path.text ++ ": " ++ error.text
  | read fault => "Failed to read file: " ++ fault.message
  | write path fault => "Failed to write " ++ path.text ++ ": " ++ fault.message
  | format path message => "Formatting " ++ path.text ++ " failed: " ++ message
  | formatterNotFound name => "Formatter binary not found: " ++ name

/-- The wording of what a failure comes from. -/
def cause? : Failure → Option String
  | parse _ error => some error.text
  | read fault | write _ fault => some fault.message
  | _ => none

/-- The wording of a failure and of what it comes from. -/
def chain (f : Failure) : String :=
  match f.cause? with
  | some cause => f.message ++ ": " ++ cause
  | none => f.message

end Failure

end Understudy
