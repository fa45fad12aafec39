import Understudy.Report
import Understudy.Stub.Imports

/-!
# Formatters

A stub is formatted before it is written, by the built-in formatter or by a separate tool that
reads it from its standard input. The tool is known here by what it answers only, and it is assumed
to answer to its arguments and its standard input: what lies in the directory that it is given is
no input of it.
-/

set_option autoImplicit false

namespace Understudy.Stub

open Files

/-- Which formatter to use. -/
inductive FormatterKind where
  /-- The built-in one. -/
  | native
  /-- The separate tool. -/
  | goimports
  deriving Repr, DecidableEq

namespace FormatterKind

/-- The name of a kind. -/
def name : FormatterKind → String
  | native => "native"
  | goimports => "goimports"

/-- The kind with a name. -/
def ofName? : String → Option FormatterKind
  | "native" => some native
  | "goimports" => some goimports
  | _ => none

/-- The kind with a name, or a failure that names what is missing. -/
def parse (name : String) : Except Failure FormatterKind :=
  match ofName? name with
  | some kind => .ok kind
  | none => .error (.formatterNotFound name)

end FormatterKind

/-- What a run of a tool leaves. -/
structure ToolRun where
  /-- Whether the tool ended without an error. -/
  succeeded : Bool
  output : ByteArray
  errors : ByteArray

/-- A tool answers to its arguments and its standard input. -/
abbrev Tool := List RawText → String → ToolRun

/-- What a tool makes of a stub. -/
def formatWithTool (tool : Tool) (path : DiskPath) (text : String) : Except Failure String :=
  let directory := path.parent?.getD ⟨"."⟩
  let run := tool [.ofText "-srcdir", directory.raw] text
  if run.succeeded then
    (Text.decode run.output).mapError fun fault =>
      .format path ("Invalid UTF-8 in goimports output: " ++ fault.message)
  else
    .error (.format path (String.ofList (Text.trim (Text.decodeLossy run.errors).toList)))

/-- A formatter that is ready to be used. -/
inductive Formatter where
  | native
  | external (tool : Tool)

namespace Formatter

/-- Makes a formatter ready. The separate tool has to be installed. -/
def ofKind (kind : FormatterKind) (installed : Option Tool) : Except Failure Formatter :=
  match kind, installed with
  | .native, _ => .ok native
  | .goimports, some tool => .ok (external tool)
  | .goimports, none => .error (.formatterNotFound kind.name)

/-- The text that a stub is written as. -/
def apply (formatter : Formatter) (path : DiskPath) (text : String) : Except Failure String :=
  match formatter with
  | native => formatAt path text
  | external tool => formatWithTool tool path text

/-- The notes taken when a stub is formatted. -/
def notes (formatter : Formatter) (path : DiskPath) (text : String) : List Note :=
  match formatter with
  | native => (unusedImports text).map fun i => {
      level := .debug
      message := "removing unused import " ++ Text.quote i.path ++ " from " ++ path.text }
  | external _ => []

end Formatter

end Understudy.Stub
